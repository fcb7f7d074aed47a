import Statechart.Editor.Event
import Statechart.Interpreter
import Statechart.Wire

/-! Wire forms of editor events, editor contexts and the options of a run. -/
namespace Statechart.Wire

variable {T : Type}

def plainEvent? : String → Option (EditorEvent T)
  | "ACCESS_DENIED" => some .accessDenied
  | "ACCESS_GRANTED" => some .accessGranted
  | "FOREIGN_LOCK_ADDED" => some .foreignLockAdded
  | "FOREIGN_LOCK_RELEASED" => some .foreignLockReleased
  | "LOCAL_LOCK_RELEASED" => some .localLockReleased
  | _ => none

/-- The name of the type stands in the event; an update has its content beside it, even if that is
null. An array holds the name first. -/
instance [Wire T] : Wire (EditorEvent T) where
  encode e :=
    .obj ((e.content?.map fun content => ("content", encode content)).toList ++
      [("type", .text e.typeName)])
  decode
    | .obj fields => do
      let type ← field fields "type"
      if type = "CONTENT_UPDATED" then (field fields "content").map .contentUpdated
      else plainEvent? type
    | .arr [.text type] => plainEvent? type
    | .arr [.text "CONTENT_UPDATED", content] => (decode content).map .contentUpdated
    | _ => none

/-- Null and a missing field both stand for no content. -/
instance [Wire T] : Wire (EditorContext T) where
  encode c := .obj [("content", encode c.content)]
  decode j := do
    let fields ← record? 1 ["content"] j
    return { content := ← fieldOr fields "content" none }

/-- A missing option takes its default. -/
instance : Wire Options where
  encode o := .obj [("debug", .bool o.debug), ("history_limit", encode o.historyLimit)]
  decode j := do
    let fields ← record? 0 ["debug", "history_limit"] j
    return {
      debug := ← fieldOr fields "debug" false
      historyLimit := ← fieldOr fields "history_limit" 1024 }

end Statechart.Wire
