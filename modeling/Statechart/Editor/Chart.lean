import Statechart.Editor.Settings
import Statechart.Spec.Build

/-! The chart of an editor. While nobody else holds the lock and access is granted it is editable, and
then pristine or dirty; with an idle delay each of these is active or idle. Otherwise it is
uneditable, and keeps the lock and the access apart in two parallel regions. -/
namespace Statechart.Editor

variable {T : Type}

abbrev State (T : Type) := StateSpec (EditorContext T) (EditorEvent T)

abbrev Transition (T : Type) := TransitionSpec (EditorContext T) (EditorEvent T)

abbrev Act (T : Type) := Action (EditorContext T) (EditorEvent T)

def dirtyGuard (isDirty : DirtyTest T) : Guard (EditorContext T) (EditorEvent T) where
  judge view :=
    match view.trigger with
    | .event (.contentUpdated content) =>
      match isDirty view.context.content content with
      | .dirty => .holds
      | .clean => .fails
      | .crashed message => .crashed message
    | _ => .fails

def updateContent : Act T :=
  .assign "updateContent" fun context trigger =>
    match trigger with
    | .event (.contentUpdated content) => ⟨some content⟩
    | _ => context

def resetContent : Act T := .assign "resetContent" fun _ _ => ⟨none⟩

/-- A state that tells an active user from an idle one when there is an idle delay. -/
def activityState (key : String) (idleDelay : Option Duration) (entry : List (Act T))
    (on : List (String × Transition T)) : State T :=
  match idleDelay with
  | none => { key, shape := .atomic, entry, on }
  | some delay =>
    { key
      shape := .compound
      initial := some "active"
      entry
      on
      states := [
        { key := "active"
          shape := .atomic
          entry := [.run "notifyActive"]
          after := [(delay, { target := some "idle" })] },
        { key := "idle", shape := .atomic, entry := [.run "notifyIdle"] }] }

def editable (isDirty : DirtyTest T) (idleDelay : Option Duration) : State T where
  key := "editable"
  shape := .compound
  initial := some "pristine"
  entry := [.run "notifyEditable"]
  on := [
    ("FOREIGN_LOCK_ADDED", { target := some "#editor.uneditable.lock.locked" }),
    ("ACCESS_DENIED", { target := some "#editor.uneditable.access.denied" })]
  states := [
    activityState "pristine" idleDelay [resetContent, .run "notifyResetEditor"] [
      ("CONTENT_UPDATED",
        { target := some "dirty"
          guard := some (dirtyGuard isDirty)
          actions := [updateContent] }),
      ("CONTENT_UPDATED",
        { target := some "pristine", internal := true, actions := [updateContent] })],
    activityState "dirty" idleDelay [.run "notifyContentDirty"] [
      ("LOCAL_LOCK_RELEASED", { target := some "#editor.editable" }),
      ("CONTENT_UPDATED", { target := some "dirty", actions := [updateContent] })]]

/-- A region of an uneditable editor. While the state `beside` is active in the other region, what
frees this one makes the editor editable. -/
def region (key free barred bars frees beside : String) : State T where
  key
  shape := .compound
  initial := some free
  states := [
    { key := free
      shape := .atomic
      on := [(bars, { target := some barred })] },
    { key := barred
      shape := .atomic
      on := [
        (frees, { target := some "#editor.editable.pristine", inState := some beside }),
        (frees, { target := some free })] }]

def lock : State T :=
  region "lock" "unlocked" "locked" "FOREIGN_LOCK_ADDED" "FOREIGN_LOCK_RELEASED"
    "uneditable.access.granted"

def access : State T :=
  region "access" "granted" "denied" "ACCESS_DENIED" "ACCESS_GRANTED" "uneditable.lock.unlocked"

def uneditable : State T where
  key := "uneditable"
  shape := .parallel
  entry := [.run "notifyUneditable", .run "notifyResetEditor"]
  states := [lock, access]

def spec (isDirty : DirtyTest T) (idleDelay : Option Duration) :
    ChartSpec (EditorContext T) (EditorEvent T) where
  name := "editor"
  context := ⟨none⟩
  initial := some "editable"
  states := [editable isDirty idleDelay, uneditable]

end Statechart.Editor
