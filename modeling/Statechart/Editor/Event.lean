import Statechart.Trigger

/-! The events an editor reacts to and the content it keeps. -/
namespace Statechart

inductive EditorEvent (T : Type) where
  | accessDenied
  | accessGranted
  | contentUpdated (content : T)
  | foreignLockAdded
  | foreignLockReleased
  | localLockReleased
deriving DecidableEq, Repr

namespace EditorEvent

variable {T : Type}

def typeName : EditorEvent T → String
  | .accessDenied => "ACCESS_DENIED"
  | .accessGranted => "ACCESS_GRANTED"
  | .contentUpdated _ => "CONTENT_UPDATED"
  | .foreignLockAdded => "FOREIGN_LOCK_ADDED"
  | .foreignLockReleased => "FOREIGN_LOCK_RELEASED"
  | .localLockReleased => "LOCAL_LOCK_RELEASED"

instance : Event (EditorEvent T) := ⟨typeName⟩

def content? : EditorEvent T → Option T
  | .contentUpdated content => some content
  | _ => none

end EditorEvent

structure EditorContext (T : Type) where
  content : Option T
deriving DecidableEq, Repr

end Statechart
