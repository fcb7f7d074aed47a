import Mathlib.Data.List.Permutation
import Statechart.Proofs.Delays
import Statechart.Proofs.EditorNodes

/-! What an editor does in one step, told without its chart: the states it can be in, and for each
of them and each trigger the state it turns to, its content, and all that it fires. -/
namespace Statechart.Editor

variable {T : Type}

/-- The states an editor can be in. Without an idle delay nobody is told to be idle. -/
inductive Mode where
  | editable (dirty idle : Bool)
  | uneditable (locked denied : Bool)
deriving DecidableEq, Repr

def Mode.active : Bool → Mode → List NodeId
  | false, .editable false _ => [0, 1, 2]
  | false, .editable true _ => [0, 1, 3]
  | false, .uneditable false false => [0, 4, 5, 6, 8, 9]
  | false, .uneditable false true => [0, 4, 5, 6, 8, 10]
  | false, .uneditable true false => [0, 4, 5, 7, 8, 9]
  | false, .uneditable true true => [0, 4, 5, 7, 8, 10]
  | true, .editable false false => [0, 1, 2, 3]
  | true, .editable false true => [0, 1, 2, 4]
  | true, .editable true false => [0, 1, 5, 6]
  | true, .editable true true => [0, 1, 5, 7]
  | true, .uneditable false false => [0, 8, 9, 10, 12, 13]
  | true, .uneditable false true => [0, 8, 9, 10, 12, 14]
  | true, .uneditable true false => [0, 8, 9, 11, 12, 13]
  | true, .uneditable true true => [0, 8, 9, 11, 12, 14]

def Mode.leaves (timed : Bool) : Mode → List Path
  | .editable dirty idle =>
    let place := if dirty then "editable.dirty" else "editable.pristine"
    [⟨if timed then place ++ if idle then ".idle" else ".active" else place⟩]
  | .uneditable locked denied =>
    [⟨if locked then "uneditable.lock.locked" else "uneditable.lock.unlocked"⟩,
      ⟨if denied then "uneditable.access.denied" else "uneditable.access.granted"⟩]

/-- The state that counts the idle delay. -/
def timedState (dirty : Bool) : Path :=
  if dirty then ⟨"editable.dirty.active"⟩ else ⟨"editable.pristine.active"⟩

def Mode.counting : Bool → Mode → Option Path
  | true, .editable dirty false => some (timedState dirty)
  | _, _ => none

/-- What is fired when the user comes to be active. -/
def arrivals (dirty : Bool) : Option Duration → List Fired
  | none => []
  | some delay => [.run "notifyActive", .schedule (timedState dirty) delay]

/-- What is fired when the user is no longer active. -/
def departures (dirty idle : Bool) (idleDelay : Option Duration) : List Fired :=
  if idleDelay.isSome && !idle then [.cancel (timedState dirty)] else []

/-- What can keep an editor from being editable: a lock of somebody else, or access denied. -/
inductive Region where
  | lock
  | access

namespace Region

/-- The mode of an uneditable editor, told from one of its regions: whether that one is barred, and
whether the other one is. -/
def mode : Region → Bool → Bool → Mode
  | .lock, barred, beside => .uneditable barred beside
  | .access, barred, beside => .uneditable beside barred

def bars : Region → EditorEvent T
  | .lock => .foreignLockAdded
  | .access => .accessDenied

def frees : Region → EditorEvent T
  | .lock => .foreignLockReleased
  | .access => .accessGranted

/-- The state that is active when the other region is free. -/
def freeBeside : Region → Path
  | .lock => ⟨"uneditable.access.granted"⟩
  | .access => ⟨"uneditable.lock.unlocked"⟩

def freeNode : Region → Bool → NodeId
  | .lock, timed => if timed then 10 else 6
  | .access, timed => if timed then 13 else 9

def barredNode : Region → Bool → NodeId
  | .lock, timed => if timed then 11 else 7
  | .access, timed => if timed then 14 else 10

theorem exists_mode (r : Region) (locked denied : Bool) :
    ∃ barred beside, Mode.uneditable locked denied = r.mode barred beside := by
  cases r with
  | lock => exact ⟨locked, denied, rfl⟩
  | access => exact ⟨denied, locked, rfl⟩

theorem freeBeside_iff (r : Region) (timed barred beside : Bool) :
    ((r.mode barred beside).leaves timed).any (Path.contains r.freeBeside) = !beside := by
  revert timed barred beside
  cases r <;> decide

end Region

structure Turn (T : Type) where
  mode : Mode
  context : EditorContext T
  fired : List Fired
  changed : Bool := true
  faults : List GuardFault := []

def stay (mode : Mode) (context : EditorContext T) : Turn T where
  mode
  context
  fired := []
  changed := false

/-- The editor becomes editable and forgets its content. -/
def openUp (idleDelay : Option Duration) (before : List Fired) : Turn T where
  mode := .editable false false
  context := ⟨none⟩
  fired := before ++ [.run "notifyEditable", .assign "resetContent", .run "notifyResetEditor"] ++
    arrivals false idleDelay

def soil (idleDelay : Option Duration) (before : List Fired) (content : T) : Turn T where
  mode := .editable true false
  context := ⟨some content⟩
  fired := before ++ [.assign "updateContent", .run "notifyContentDirty"] ++ arrivals true idleDelay

def closeDown (before : List Fired) (locked denied : Bool) (context : EditorContext T) :
    Turn T where
  mode := .uneditable locked denied
  context
  fired := before ++ [.run "notifyUneditable", .run "notifyResetEditor"]

/-- A crash of the dirtiness test counts as a clean content, and is reported. -/
def judgementFaults : Judgement → List GuardFault
  | .crashed (some message) =>
    [⟨⟨"editable.pristine"⟩, "CONTENT_UPDATED", ⟨"guard panicked: " ++ message⟩⟩]
  | .crashed none => [⟨⟨"editable.pristine"⟩, "CONTENT_UPDATED", ⟨"guard panicked"⟩⟩]
  | _ => []

def turn (isDirty : DirtyTest T) (idleDelay : Option Duration) (context : EditorContext T) :
    Mode → Trigger (EditorEvent T) → Turn T
  | .editable false idle, .event (.contentUpdated content) =>
    match isDirty context.content content with
    | .dirty => soil idleDelay (departures false idle idleDelay) content
    | judgement =>
      { mode := .editable false idle
        context := ⟨some content⟩
        fired := [.assign "updateContent"]
        faults := judgementFaults judgement }
  | .editable true idle, .event (.contentUpdated content) =>
    soil idleDelay (departures true idle idleDelay) content
  | .editable true idle, .event .localLockReleased =>
    openUp idleDelay (departures true idle idleDelay)
  | .editable dirty idle, .event .foreignLockAdded =>
    closeDown (departures dirty idle idleDelay) true false context
  | .editable dirty idle, .event .accessDenied =>
    closeDown (departures dirty idle idleDelay) false true context
  | .editable dirty idle, .after state =>
    if (Mode.editable dirty idle).counting idleDelay.isSome = some state then
      { mode := .editable dirty true
        context
        fired := [.cancel state, .run "notifyIdle"] }
    else stay (.editable dirty idle) context
  | .uneditable false denied, .event .foreignLockAdded =>
    { mode := .uneditable true denied, context, fired := [] }
  | .uneditable locked false, .event .accessDenied =>
    { mode := .uneditable locked true, context, fired := [] }
  | .uneditable true denied, .event .foreignLockReleased =>
    if denied then { mode := .uneditable false true, context, fired := [] }
    else openUp idleDelay []
  | .uneditable locked true, .event .accessGranted =>
    if locked then { mode := .uneditable true false, context, fired := [] }
    else openUp idleDelay []
  | mode, _ => stay mode context

def Turn.snapshot (t : Turn T) (isDirty : DirtyTest T) (idleDelay : Option Duration)
    (trigger : String) : Snapshot (EditorContext T) where
  configuration := (machine isDirty idleDelay).configurationOf (t.mode.active idleDelay.isSome)
  context := t.context
  fired := t.fired
  changed := t.changed
  faults := t.faults
  trigger

theorem isTree_machine (isDirty : DirtyTest T) (idleDelay : Option Duration) :
    (machine isDirty idleDelay).IsTree :=
  ChartSpec.isTree_of_build (build_spec isDirty idleDelay)

theorem mem_ids_active (isDirty : DirtyTest T) (idleDelay : Option Duration) (mode : Mode) :
    ∀ i ∈ mode.active idleDelay.isSome, i ∈ (machine isDirty idleDelay).ids := by
  have huntimed : ∀ i ∈ mode.active false, i ∈ List.range 11 := by
    rcases mode with ⟨_ | _, _ | _⟩ | ⟨_ | _, _ | _⟩ <;> decide
  have htimed : ∀ i ∈ mode.active true, i ∈ List.range 15 := by
    rcases mode with ⟨_ | _, _ | _⟩ | ⟨_ | _, _ | _⟩ <;> decide
  cases idleDelay with
  | none => exact huntimed
  | some delay => exact htimed

theorem legal_active (isDirty : DirtyTest T) (idleDelay : Option Duration) (mode : Mode) :
    (machine isDirty idleDelay).Legal (mode.active idleDelay.isSome) := by
  have tree := isTree_machine isDirty idleDelay
  refine (tree.isLegal_iff (mem_ids_active isDirty idleDelay mode)).mp ?_
  rcases idleDelay with _ | delay
  · rcases mode with ⟨_ | _, _⟩ | ⟨_ | _, _ | _⟩ <;> cbv
  · rcases mode with ⟨_ | _, _ | _⟩ | ⟨_ | _, _ | _⟩ <;> cbv

theorem settled_active (isDirty : DirtyTest T) (idleDelay : Option Duration) (mode : Mode) :
    (machine isDirty idleDelay).Settled (mode.active idleDelay.isSome)
      ((machine isDirty idleDelay).configurationOf (mode.active idleDelay.isSome)) := by
  refine ⟨legal_active isDirty idleDelay mode, ?_, rfl⟩
  rcases idleDelay with _ | delay
  · rcases mode with ⟨_ | _, _⟩ | ⟨_ | _, _ | _⟩ <;> cbv
  · rcases mode with ⟨_ | _, _ | _⟩ | ⟨_ | _, _ | _⟩ <;> cbv

theorem isActive_active (isDirty : DirtyTest T) (idleDelay : Option Duration) (mode : Mode)
    (p : Path) :
    ((machine isDirty idleDelay).configurationOf (mode.active idleDelay.isSome)).isActive p =
      (mode.leaves idleDelay.isSome).any p.contains := by
  rw [Chart.isActive_configurationOf]
  rcases idleDelay with _ | delay
  · rcases mode with ⟨_ | _, _⟩ | ⟨_ | _, _ | _⟩ <;> rfl
  · rcases mode with ⟨_ | _, _ | _⟩ | ⟨_ | _, _ | _⟩ <;> rfl

section

variable {isDirty : DirtyTest T} {idleDelay : Option Duration} {mode : Mode}
  {s : Snapshot (EditorContext T)}

theorem step_stay {trigger : Trigger (EditorEvent T)}
    (hs : s.configuration =
      (machine isDirty idleDelay).configurationOf (mode.active idleDelay.isSome))
    (hsources : (machine isDirty idleDelay).sources trigger (mode.active idleDelay.isSome) = []) :
    (machine isDirty idleDelay).step s trigger (mode.active idleDelay.isSome) =
      (stay mode s.context).snapshot isDirty idleDelay trigger.text := by
  rw [Chart.step_of_no_source hsources, hs]
  rfl

theorem choose_dirtyGuard (context : EditorContext T) (content : T) (c : Configuration)
    (target : NodeId) (internal : Bool) (actions : List (Act T))
    {fallback : Candidate (EditorContext T) (EditorEvent T)} (h : fallback.guard = none) :
    Chart.choose ⟨context, .event (.contentUpdated content), c⟩ ⟨"editable.pristine"⟩
        [⟨target, some (dirtyGuard isDirty), internal, actions⟩, fallback] =
      match isDirty context.content content with
      | .dirty => (some ⟨target, some (dirtyGuard isDirty), internal, actions⟩, [])
      | judgement => (some fallback, judgementFaults judgement) := by
  rcases hj : isDirty context.content content with _ | _ | _ | message <;>
    simp [Chart.choose, Candidate.enabled, Guard.check, dirtyGuard, hj, h, Verdict.outcome,
      judgementFaults, Trigger.text, Event.typeName, EditorEvent.typeName]

theorem chooseAt_pristine (isDirty : DirtyTest T) (idleDelay : Option Duration)
    (context : EditorContext T) (content : T) (c : Configuration) :
    (machine isDirty idleDelay).chooseAt ⟨context, .event (.contentUpdated content), c⟩ 2 =
      match isDirty context.content content with
      | .dirty => (some ⟨if idleDelay.isSome then 5 else 3, some (dirtyGuard isDirty), false,
          [updateContent]⟩, [])
      | judgement => (some ⟨2, none, true, [updateContent]⟩, judgementFaults judgement) := by
  cases idleDelay with
  | none => exact choose_dirtyGuard context content c 3 false [updateContent] rfl
  | some delay => exact choose_dirtyGuard context content c 5 false [updateContent] rfl

theorem step_pristine_content (idle : Bool) (content : T) (s : Snapshot (EditorContext T)) :
    (machine isDirty idleDelay).step s (.event (.contentUpdated content))
        ((Mode.editable false idle).active idleDelay.isSome) =
      (turn isDirty idleDelay s.context (.editable false idle)
        (.event (.contentUpdated content))).snapshot isDirty idleDelay "CONTENT_UPDATED" := by
  have hsources : (machine isDirty idleDelay).sources (.event (.contentUpdated content))
      ((Mode.editable false idle).active idleDelay.isSome) = [2] := by
    rcases idleDelay with _ | delay <;> cases idle <;> cbv
  have hchosen := chooseAt_pristine isDirty idleDelay s.context content s.configuration
  by_cases hj : isDirty s.context.content content = .dirty
  · have hturn : turn isDirty idleDelay s.context (.editable false idle)
        (.event (.contentUpdated content)) =
        soil idleDelay (departures false idle idleDelay) content := by
      simp [turn, hj]
    rw [hj] at hchosen
    rw [hturn]
    refine Chart.step_of_source hsources hchosen ?_
    rcases idleDelay with _ | delay <;> cases idle <;> cbv
  · have hturn : turn isDirty idleDelay s.context (.editable false idle)
        (.event (.contentUpdated content)) =
        ⟨.editable false idle, ⟨some content⟩, [.assign "updateContent"], true,
          judgementFaults (isDirty s.context.content content)⟩ := by
      simp [turn]
    have hclean : (machine isDirty idleDelay).chooseAt
        ⟨s.context, .event (.contentUpdated content), s.configuration⟩ 2 =
        (some ⟨2, none, true, [updateContent]⟩,
          judgementFaults (isDirty s.context.content content)) := by
      rw [hchosen]
      split
      · rename_i hdirty
        exact absurd hdirty hj
      · rfl
    rw [hturn]
    refine Chart.step_of_source hsources hclean ?_
    rcases idleDelay with _ | delay <;> cases idle <;> cbv

theorem choose_whileIn (view : GuardView (EditorContext T) (EditorEvent T)) (source state : Path)
    (target : NodeId) {fallback : Candidate (EditorContext T) (EditorEvent T)}
    (h : fallback.guard = none) :
    Chart.choose view source [whileIn state target, fallback] =
      if view.inState state then (some (whileIn state target), []) else (some fallback, []) := by
  by_cases hin : view.inState state = true <;>
    simp [Chart.choose, Candidate.enabled, whileIn, Guard.check, Guard.inState, hin, h,
      Verdict.ofBool, Verdict.outcome]

theorem chooseAt_barred (isDirty : DirtyTest T) (idleDelay : Option Duration) (r : Region)
    (context : EditorContext T) (c : Configuration) :
    (machine isDirty idleDelay).chooseAt ⟨context, .event r.frees, c⟩
        (r.barredNode idleDelay.isSome) =
      if c.isActive r.freeBeside then (some (whileIn r.freeBeside 2), [])
      else (some (plain (r.freeNode idleDelay.isSome)), []) := by
  cases r <;> cases idleDelay <;> exact choose_whileIn ⟨context, .event _, c⟩ _ _ 2 rfl

theorem counting_of_active {i : NodeId} {n : EditorNode T}
    (hi : i ∈ mode.active idleDelay.isSome) (hn : (machine isDirty idleDelay).node? i = some n)
    (hd : n.after.isSome = true) : mode.counting idleDelay.isSome = some n.path := by
  have hall : ((mode.active idleDelay.isSome).filterMap (machine isDirty idleDelay).node?).all
      (fun n => n.after.isNone || mode.counting idleDelay.isSome == some n.path) = true := by
    rcases idleDelay with _ | delay <;> rcases mode with ⟨_ | _, _ | _⟩ | ⟨_ | _, _ | _⟩ <;> rfl
  have h := List.all_eq_true.mp hall n (List.mem_filterMap.mpr ⟨i, hi, hn⟩)
  rcases Bool.or_eq_true_iff.mp h with hnone | hcount
  · simp [Option.isNone_iff_eq_none.mp hnone] at hd
  · simpa using hcount

variable (hs : s.configuration =
  (machine isDirty idleDelay).configurationOf (mode.active idleDelay.isSome))

include hs

theorem step_after (state : Path) :
    (machine isDirty idleDelay).step s (.after state) (mode.active idleDelay.isSome) =
      (turn isDirty idleDelay s.context mode (.after state)).snapshot isDirty idleDelay
        (Trigger.delayText state) := by
  by_cases hcount : mode.counting idleDelay.isSome = some state
  · rcases idleDelay with _ | delay <;>
      rcases mode with ⟨dirty, _ | _⟩ | ⟨locked, denied⟩ <;> cases hcount
    have hturn : turn isDirty (some delay) s.context (.editable dirty false)
        (.after (timedState dirty)) =
        ⟨.editable dirty true, s.context, [.cancel (timedState dirty), .run "notifyIdle"], true,
          []⟩ := by
      simp [turn, Mode.counting]
    rw [hturn]
    cases dirty <;> exact Chart.step_of_applied (by cbv) (by cbv) (by cbv)
  · have hturn : turn isDirty idleDelay s.context mode (.after state) = stay mode s.context := by
      rcases mode with ⟨dirty, idle⟩ | ⟨locked, denied⟩
      · simp [turn, hcount]
      · cases locked <;> cases denied <;> rfl
    rw [hturn]
    refine step_stay hs ((isTree_machine isDirty idleDelay).sources_eq_nil
      (legal_active isDirty idleDelay mode) fun i hi n hn => ?_)
    cases hd : n.after with
    | none => simp [Node.declared, hd]
    | some d =>
      have hpath := counting_of_active hi hn (by simp [hd])
      have hne : state ≠ n.path := fun heq => hcount (heq ▸ hpath)
      simp [Node.declared, hne]

theorem step_bars (r : Region) :
    (machine isDirty idleDelay).step s (.event r.bars) (mode.active idleDelay.isSome) =
      (turn isDirty idleDelay s.context mode (.event r.bars)).snapshot isDirty idleDelay
        (Trigger.event (r.bars (T := T))).text := by
  rcases mode with ⟨dirty, idle⟩ | ⟨locked, denied⟩
  · rcases idleDelay with _ | delay
    · cases r <;> cases dirty <;> exact Chart.step_of_applied (by cbv) (by cbv) (by cbv)
    · cases r <;> cases dirty <;> cases idle <;>
        exact Chart.step_of_applied (by cbv) (by cbv) (by cbv)
  · obtain ⟨barred, beside, hmode⟩ := r.exists_mode locked denied
    rw [hmode] at hs ⊢
    cases barred with
    | false =>
      cases r <;> rcases idleDelay with _ | delay <;> cases beside <;>
        exact Chart.step_of_applied (by cbv) (by cbv) (by cbv)
    | true =>
      cases r <;> rcases idleDelay with _ | delay <;> cases beside <;>
        exact step_stay hs (by cbv)

/-- Only a barred region answers what frees it, and then the other region decides. -/
theorem step_frees (r : Region) :
    (machine isDirty idleDelay).step s (.event r.frees) (mode.active idleDelay.isSome) =
      (turn isDirty idleDelay s.context mode (.event r.frees)).snapshot isDirty idleDelay
        (Trigger.event (r.frees (T := T))).text := by
  rcases mode with ⟨dirty, idle⟩ | ⟨locked, denied⟩
  · cases r <;> rcases idleDelay with _ | delay <;> cases dirty <;> cases idle <;>
      exact step_stay hs (by cbv)
  · obtain ⟨barred, beside, hmode⟩ := r.exists_mode locked denied
    rw [hmode] at hs ⊢
    cases barred with
    | false =>
      cases r <;> rcases idleDelay with _ | delay <;> cases beside <;>
        exact step_stay hs (by cbv)
    | true =>
      have hin : s.configuration.isActive r.freeBeside = !beside := by
        rw [hs, isActive_active, r.freeBeside_iff]
      have hchosen := chooseAt_barred isDirty idleDelay r s.context s.configuration
      rw [hin] at hchosen
      cases r <;> rcases idleDelay with _ | delay <;> cases beside <;>
        exact Chart.step_of_source (by cbv) hchosen (by cbv)

theorem step_contentUpdated (content : T) :
    (machine isDirty idleDelay).step s (.event (.contentUpdated content))
        (mode.active idleDelay.isSome) =
      (turn isDirty idleDelay s.context mode (.event (.contentUpdated content))).snapshot isDirty
        idleDelay "CONTENT_UPDATED" := by
  rcases mode with ⟨_ | _, idle⟩ | ⟨locked, denied⟩
  · exact step_pristine_content idle content s
  · rcases idleDelay with _ | delay
    · exact Chart.step_of_applied (by cbv) (by cbv) (by cbv)
    · cases idle <;> exact Chart.step_of_applied (by cbv) (by cbv) (by cbv)
  · rcases idleDelay with _ | delay <;> cases locked <;> cases denied <;>
      exact step_stay hs (by cbv)

theorem step_localLockReleased :
    (machine isDirty idleDelay).step s (.event .localLockReleased) (mode.active idleDelay.isSome) =
      (turn isDirty idleDelay s.context mode (.event .localLockReleased)).snapshot isDirty idleDelay
        "LOCAL_LOCK_RELEASED" := by
  rcases mode with ⟨_ | _, idle⟩ | ⟨locked, denied⟩
  · rcases idleDelay with _ | delay <;> cases idle <;> exact step_stay hs (by cbv)
  · rcases idleDelay with _ | delay
    · exact Chart.step_of_applied (by cbv) (by cbv) (by cbv)
    · cases idle <;> exact Chart.step_of_applied (by cbv) (by cbv) (by cbv)
  · rcases idleDelay with _ | delay <;> cases locked <;> cases denied <;>
      exact step_stay hs (by cbv)

theorem step_turn (trigger : Trigger (EditorEvent T)) :
    (machine isDirty idleDelay).step s trigger (mode.active idleDelay.isSome) =
      (turn isDirty idleDelay s.context mode trigger).snapshot isDirty idleDelay trigger.text := by
  match trigger with
  | .init =>
    have hturn : turn isDirty idleDelay s.context mode .init = stay mode s.context := by
      rcases mode with ⟨_ | _, _⟩ | ⟨_ | _, _ | _⟩ <;> rfl
    rw [hturn]
    refine step_stay hs ?_
    rcases idleDelay with _ | delay <;> rcases mode with ⟨_ | _, _ | _⟩ | ⟨_ | _, _ | _⟩ <;> cbv
  | .after state => exact step_after hs state
  | .event .accessDenied => exact step_bars hs .access
  | .event .accessGranted => exact step_frees hs .access
  | .event (.contentUpdated content) => exact step_contentUpdated hs content
  | .event .foreignLockAdded => exact step_bars hs .lock
  | .event .foreignLockReleased => exact step_frees hs .lock
  | .event .localLockReleased => exact step_localLockReleased hs

theorem transition_turn (trigger : Trigger (EditorEvent T)) :
    (machine isDirty idleDelay).transition s trigger =
      .ok ((turn isDirty idleDelay s.context mode trigger).snapshot isDirty idleDelay
        trigger.text) := by
  have hsettled := settled_active isDirty idleDelay mode
  rw [← hs] at hsettled
  rw [(isTree_machine isDirty idleDelay).transition_settled hsettled, step_turn hs trigger]

end

theorem initial_configuration (isDirty : DirtyTest T) (idleDelay : Option Duration) :
    (machine isDirty idleDelay).initial.configuration =
      (machine isDirty idleDelay).configurationOf
        ((Mode.editable false false).active idleDelay.isSome) := by
  have hdefaults : (machine isDirty idleDelay).defaults Chart.root =
      (Mode.editable false false).active idleDelay.isSome := by
    rcases idleDelay with _ | delay <;> cbv
  rw [← hdefaults]
  rfl

end Statechart.Editor
