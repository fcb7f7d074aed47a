import Statechart.Editor.Hooks
import Statechart.Spec.Problem
import Statechart.Time.Duration

/-! What an editor is made from: how to tell dirty content, the hooks, and the delay before a user
counts as idle. -/
namespace Statechart

/-- The end of a dirtiness test; a crash may come without a text. -/
inductive Judgement where
  | dirty
  | clean
  | crashed (message : Option String)
deriving DecidableEq, Repr

/-- Compares the previous content, if any, with the current. -/
abbrev DirtyTest (T : Type) := Option T → T → Judgement

structure EditorSettings (T W : Type) where
  isDirty : DirtyTest T
  hooks : Hooks T W
  idleDelay : Option Duration := none

/-- Settings under way, of which the required ones may still be missing. -/
structure EditorOptions (T W : Type) where
  isDirty : Option (DirtyTest T) := none
  onContentDirty : Option (T → Hook W) := none
  onEditable : Option (Hook W) := none
  onUneditable : Option (Hook W) := none
  onResetEditor : Option (Hook W) := none
  onActive : Option (Hook W) := none
  onIdle : Option (Hook W) := none
  idleDelay : Option Duration := none

namespace EditorOptions

variable {T W : Type}

def missing (o : EditorOptions T W) : List Problem :=
  [(o.isDirty.isSome, "content_is_dirty"), (o.onContentDirty.isSome, "on_content_dirty"),
    (o.onEditable.isSome, "on_editable"), (o.onUneditable.isSome, "on_uneditable"),
    (o.onResetEditor.isSome, "on_reset_editor")].filterMap fun (given, option) =>
      if given then none else some (.missingOption option)

def settings (o : EditorOptions T W) : Except Problem (EditorSettings T W) :=
  match o.isDirty, o.onContentDirty, o.onEditable, o.onUneditable, o.onResetEditor with
  | some isDirty, some onContentDirty, some onEditable, some onUneditable, some onResetEditor =>
    .ok {
      isDirty
      hooks := {
        onContentDirty, onEditable, onUneditable, onResetEditor
        onActive := o.onActive
        onIdle := o.onIdle }
      idleDelay := o.idleDelay }
  | _, _, _, _, _ => .error ((Problem.report o.missing).getD (.several []))

end EditorOptions
end Statechart
