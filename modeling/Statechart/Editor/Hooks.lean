import Statechart.Editor.Event
import Statechart.Handler

/-! The calls an editor makes into its application. -/
namespace Statechart

inductive Ending where
  | returned
  | crashed
deriving DecidableEq, Repr

def Ending.outcome : Ending → Outcome
  | .returned => .done
  | .crashed => .crashed

abbrev Hook (W : Type) := W → Ending × W

structure Hooks (T W : Type) where
  onContentDirty : T → Hook W
  onEditable : Hook W
  onUneditable : Hook W
  onResetEditor : Hook W
  onActive : Option (Hook W) := none
  onIdle : Option (Hook W) := none

namespace Hooks

variable {T W : Type}

def call (hook : Hook W) (world : W) : Outcome × W :=
  let (ending, world) := hook world
  (ending.outcome, world)

def callIfSet (hook : Option (Hook W)) (world : W) : Outcome × W :=
  match hook with
  | some hook => call hook world
  | none => (.done, world)

def handler (hooks : Hooks T W) : Handler W (EditorContext T) where
  handle action context world :=
    if action = "notifyContentDirty" then
      match context.content with
      | some content => call (hooks.onContentDirty content) world
      | none => (.failed (.failed action "editor has no content"), world)
    else if action = "notifyEditable" then call hooks.onEditable world
    else if action = "notifyUneditable" then call hooks.onUneditable world
    else if action = "notifyResetEditor" then call hooks.onResetEditor world
    else if action = "notifyActive" then callIfSet hooks.onActive world
    else if action = "notifyIdle" then callIfSet hooks.onIdle world
    else (.failed (.unhandled action), world)

end Hooks
end Statechart
