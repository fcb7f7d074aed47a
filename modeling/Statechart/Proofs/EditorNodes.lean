import Statechart.Editor.Chart
import Statechart.Proofs.Built

/-! The nodes of the editor's chart, with and without an idle delay, and that the declaration of the
editor is without problems whatever the dirtiness test and the delay. -/
namespace Statechart

theorem idAt_eq {C E : Type} (entries : List (Entry C E)) (path : Path) :
    idAt entries path = ((entries.map fun e => (e.path, e.id)).find? (·.1 == path)).map (·.2) := by
  rw [idAt, List.find?_map, Option.map_map]
  rfl

theorem filterMap_problem?_eq_nil {C E : Type} {l : List (String × Except Problem (Candidate C E))}
    (h : (l.filterMap fun (event, c) => c.toOption.map (event, ·)).length = l.length) :
    (l.filterMap fun (_, c) => problem? c) = [] := by
  induction l with
  | nil => rfl
  | cons t rest ih =>
    obtain ⟨event, c | c⟩ := t
    · rw [List.filterMap_cons_none rfl, List.length_cons] at h
      exact absurd (h ▸ List.length_filterMap_le ..) (Nat.not_succ_le_self _)
    · exact ih (by simpa [Except.toOption] using h)

namespace StateSpec

variable {C E : Type} {s : StateSpec C E}

theorem soundTree_atomic (shape : s.shape = .atomic) (states : s.states = [])
    (initial : s.initial = none) (delay : s.after.length ≤ 1) : s.SoundTree := by
  refine .mk ⟨fun _ => states, ?_, ?_, fun _ => initial, delay, ?_⟩ ?_ <;> simp [shape, states]

theorem soundTree_parallel (shape : s.shape = .parallel) (states : s.states ≠ [])
    (initial : s.initial = none) (delay : s.after.length ≤ 1)
    (below : ∀ t ∈ s.states, isValidKey t.key = true ∧ t.SoundTree) : s.SoundTree := by
  refine .mk ⟨?_, ?_, fun _ => states, fun _ => initial, delay, fun t ht => (below t ht).1⟩
    fun t ht => (below t ht).2 <;> simp [shape]

theorem soundTree_compound (shape : s.shape = .compound) (delay : s.after.length ≤ 1)
    (initial : ∃ t ∈ s.states, s.initial = some t.key)
    (below : ∀ t ∈ s.states, isValidKey t.key = true ∧ t.SoundTree) : s.SoundTree := by
  refine .mk ⟨?_, fun _ => initial, ?_, ?_, delay, fun t ht => (below t ht).1⟩
    fun t ht => (below t ht).2 <;> simp [shape]

end StateSpec

namespace Editor

variable {T : Type}

abbrev EditorNode (T : Type) := Node (EditorContext T) (EditorEvent T)

/-- A transition that is always taken and does nothing on the way. -/
def plain (target : NodeId) : Candidate (EditorContext T) (EditorEvent T) :=
  ⟨target, none, false, []⟩

/-- A transition that is taken while the state is active. -/
def whileIn (state : Path) (target : NodeId) : Candidate (EditorContext T) (EditorEvent T) :=
  ⟨target, some (.inState state), false, []⟩

/-- The nodes of an editor without an idle delay. -/
def untimedNodes (isDirty : DirtyTest T) : List (EditorNode T) := [
  ⟨0, "", .root, .compound 1, [], [1, 4], [], [], [], none⟩,
  ⟨1, "editable", ⟨"editable"⟩, .compound 2, [0], [2, 3], [.run "notifyEditable"], [],
    [("FOREIGN_LOCK_ADDED", plain 7), ("ACCESS_DENIED", plain 10)], none⟩,
  ⟨2, "pristine", ⟨"editable.pristine"⟩, .atomic, [1, 0], [],
    [resetContent, .run "notifyResetEditor"], [],
    [("CONTENT_UPDATED", ⟨3, some (dirtyGuard isDirty), false, [updateContent]⟩),
      ("CONTENT_UPDATED", ⟨2, none, true, [updateContent]⟩)], none⟩,
  ⟨3, "dirty", ⟨"editable.dirty"⟩, .atomic, [1, 0], [], [.run "notifyContentDirty"], [],
    [("LOCAL_LOCK_RELEASED", plain 1), ("CONTENT_UPDATED", ⟨3, none, false, [updateContent]⟩)],
    none⟩,
  ⟨4, "uneditable", ⟨"uneditable"⟩, .parallel, [0], [5, 8],
    [.run "notifyUneditable", .run "notifyResetEditor"], [], [], none⟩,
  ⟨5, "lock", ⟨"uneditable.lock"⟩, .compound 6, [4, 0], [6, 7], [], [], [], none⟩,
  ⟨6, "unlocked", ⟨"uneditable.lock.unlocked"⟩, .atomic, [5, 4, 0], [], [], [],
    [("FOREIGN_LOCK_ADDED", plain 7)], none⟩,
  ⟨7, "locked", ⟨"uneditable.lock.locked"⟩, .atomic, [5, 4, 0], [], [], [],
    [("FOREIGN_LOCK_RELEASED", whileIn ⟨"uneditable.access.granted"⟩ 2),
      ("FOREIGN_LOCK_RELEASED", plain 6)], none⟩,
  ⟨8, "access", ⟨"uneditable.access"⟩, .compound 9, [4, 0], [9, 10], [], [], [], none⟩,
  ⟨9, "granted", ⟨"uneditable.access.granted"⟩, .atomic, [8, 4, 0], [], [], [],
    [("ACCESS_DENIED", plain 10)], none⟩,
  ⟨10, "denied", ⟨"uneditable.access.denied"⟩, .atomic, [8, 4, 0], [], [], [],
    [("ACCESS_GRANTED", whileIn ⟨"uneditable.lock.unlocked"⟩ 2), ("ACCESS_GRANTED", plain 9)],
    none⟩]

/-- The nodes of an editor with an idle delay. -/
def timedNodes (isDirty : DirtyTest T) (delay : Duration) : List (EditorNode T) := [
  ⟨0, "", .root, .compound 1, [], [1, 8], [], [], [], none⟩,
  ⟨1, "editable", ⟨"editable"⟩, .compound 2, [0], [2, 5], [.run "notifyEditable"], [],
    [("FOREIGN_LOCK_ADDED", plain 11), ("ACCESS_DENIED", plain 14)], none⟩,
  ⟨2, "pristine", ⟨"editable.pristine"⟩, .compound 3, [1, 0], [3, 4],
    [resetContent, .run "notifyResetEditor"], [],
    [("CONTENT_UPDATED", ⟨5, some (dirtyGuard isDirty), false, [updateContent]⟩),
      ("CONTENT_UPDATED", ⟨2, none, true, [updateContent]⟩)], none⟩,
  ⟨3, "active", ⟨"editable.pristine.active"⟩, .atomic, [2, 1, 0], [], [.run "notifyActive"], [],
    [], some ⟨delay, plain 4⟩⟩,
  ⟨4, "idle", ⟨"editable.pristine.idle"⟩, .atomic, [2, 1, 0], [], [.run "notifyIdle"], [], [],
    none⟩,
  ⟨5, "dirty", ⟨"editable.dirty"⟩, .compound 6, [1, 0], [6, 7], [.run "notifyContentDirty"], [],
    [("LOCAL_LOCK_RELEASED", plain 1), ("CONTENT_UPDATED", ⟨5, none, false, [updateContent]⟩)],
    none⟩,
  ⟨6, "active", ⟨"editable.dirty.active"⟩, .atomic, [5, 1, 0], [], [.run "notifyActive"], [],
    [], some ⟨delay, plain 7⟩⟩,
  ⟨7, "idle", ⟨"editable.dirty.idle"⟩, .atomic, [5, 1, 0], [], [.run "notifyIdle"], [], [],
    none⟩,
  ⟨8, "uneditable", ⟨"uneditable"⟩, .parallel, [0], [9, 12],
    [.run "notifyUneditable", .run "notifyResetEditor"], [], [], none⟩,
  ⟨9, "lock", ⟨"uneditable.lock"⟩, .compound 10, [8, 0], [10, 11], [], [], [], none⟩,
  ⟨10, "unlocked", ⟨"uneditable.lock.unlocked"⟩, .atomic, [9, 8, 0], [], [], [],
    [("FOREIGN_LOCK_ADDED", plain 11)], none⟩,
  ⟨11, "locked", ⟨"uneditable.lock.locked"⟩, .atomic, [9, 8, 0], [], [], [],
    [("FOREIGN_LOCK_RELEASED", whileIn ⟨"uneditable.access.granted"⟩ 2),
      ("FOREIGN_LOCK_RELEASED", plain 10)], none⟩,
  ⟨12, "access", ⟨"uneditable.access"⟩, .compound 13, [8, 0], [13, 14], [], [], [], none⟩,
  ⟨13, "granted", ⟨"uneditable.access.granted"⟩, .atomic, [12, 8, 0], [], [], [],
    [("ACCESS_DENIED", plain 14)], none⟩,
  ⟨14, "denied", ⟨"uneditable.access.denied"⟩, .atomic, [12, 8, 0], [], [], [],
    [("ACCESS_GRANTED", whileIn ⟨"uneditable.lock.unlocked"⟩ 2), ("ACCESS_GRANTED", plain 13)],
    none⟩]

def nodes (isDirty : DirtyTest T) : Option Duration → List (EditorNode T)
  | none => untimedNodes isDirty
  | some delay => timedNodes isDirty delay

def machine (isDirty : DirtyTest T) (idleDelay : Option Duration) :
    Chart (EditorContext T) (EditorEvent T) where
  name := "editor"
  nodes := (nodes isDirty idleDelay).toArray
  context := ⟨none⟩

def untimedPlaces : List (Path × NodeId) := [
  (.root, 0), (⟨"editable"⟩, 1), (⟨"editable.pristine"⟩, 2), (⟨"editable.dirty"⟩, 3),
  (⟨"uneditable"⟩, 4), (⟨"uneditable.lock"⟩, 5), (⟨"uneditable.lock.unlocked"⟩, 6),
  (⟨"uneditable.lock.locked"⟩, 7), (⟨"uneditable.access"⟩, 8),
  (⟨"uneditable.access.granted"⟩, 9), (⟨"uneditable.access.denied"⟩, 10)]

def timedPlaces : List (Path × NodeId) := [
  (.root, 0), (⟨"editable"⟩, 1), (⟨"editable.pristine"⟩, 2), (⟨"editable.pristine.active"⟩, 3),
  (⟨"editable.pristine.idle"⟩, 4), (⟨"editable.dirty"⟩, 5), (⟨"editable.dirty.active"⟩, 6),
  (⟨"editable.dirty.idle"⟩, 7), (⟨"uneditable"⟩, 8), (⟨"uneditable.lock"⟩, 9),
  (⟨"uneditable.lock.unlocked"⟩, 10), (⟨"uneditable.lock.locked"⟩, 11),
  (⟨"uneditable.access"⟩, 12), (⟨"uneditable.access.granted"⟩, 13),
  (⟨"uneditable.access.denied"⟩, 14)]

def places : Option Duration → List (Path × NodeId)
  | none => untimedPlaces
  | some _ => timedPlaces

def place (idleDelay : Option Duration) (path : Path) : Option NodeId :=
  ((places idleDelay).find? (·.1 == path)).map (·.2)

theorem index_spec (isDirty : DirtyTest T) (idleDelay : Option Duration) :
    (spec isDirty idleDelay).index = place idleDelay := by
  have hplaces : (spec isDirty idleDelay).entries.map (fun e => (e.path, e.id)) =
      places idleDelay := by
    cases idleDelay with
    | none => rfl
    | some delay => rfl
  funext path
  rw [ChartSpec.index, idAt_eq, hplaces]
  rfl

theorem nodes_spec (isDirty : DirtyTest T) (idleDelay : Option Duration) :
    (spec isDirty idleDelay).entries.map (·.node "editor" (place idleDelay)) =
      nodes isDirty idleDelay := by
  cases idleDelay with
  | none =>
    simp only [ChartSpec.entries, ChartSpec.root, spec, editable, activityState, uneditable, lock,
      access, region, StateSpec.layout, StateSpec.layoutAll, List.map_cons, List.map_nil,
      List.cons_append, List.nil_append, Entry.node, Entry.resolveOn, TransitionSpec.resolve]
    rfl
  | some delay =>
    simp only [ChartSpec.entries, ChartSpec.root, spec, editable, activityState, uneditable, lock,
      access, region, StateSpec.layout, StateSpec.layoutAll, List.map_cons, List.map_nil,
      List.cons_append, List.nil_append, Entry.node, Entry.resolveOn, Entry.resolveAfter,
      List.head?_cons, List.head?_nil, Option.map_some, Option.map_none, Option.bind_some,
      TransitionSpec.resolve]
    rfl

theorem soundTree_activityState (key : String) (idleDelay : Option Duration) (entry : List (Act T))
    (on : List (String × Transition T)) : (activityState key idleDelay entry on).SoundTree := by
  cases idleDelay with
  | none => exact StateSpec.soundTree_atomic rfl rfl rfl (by simp [activityState])
  | some delay =>
    refine StateSpec.soundTree_compound rfl (by simp [activityState]) (by simp [activityState]) ?_
    simp only [activityState, List.forall_mem_cons, List.not_mem_nil, false_imp_iff, implies_true,
      and_true]
    exact ⟨⟨by decide, StateSpec.soundTree_atomic rfl rfl rfl (by simp)⟩,
      by decide, StateSpec.soundTree_atomic rfl rfl rfl (by simp)⟩

theorem key_activityState (key : String) (idleDelay : Option Duration) (entry : List (Act T))
    (on : List (String × Transition T)) : (activityState key idleDelay entry on).key = key := by
  cases idleDelay <;> rfl

theorem soundTree_region {free barred : String} (hfree : isValidKey free = true)
    (hbarred : isValidKey barred = true) (key bars frees beside : String) :
    (region key free barred bars frees beside : State T).SoundTree := by
  refine StateSpec.soundTree_compound rfl (by simp [region]) (by simp [region]) ?_
  simp only [region, List.forall_mem_cons, List.not_mem_nil, false_imp_iff, implies_true, and_true]
  exact ⟨⟨hfree, StateSpec.soundTree_atomic rfl rfl rfl (by simp)⟩,
    hbarred, StateSpec.soundTree_atomic rfl rfl rfl (by simp)⟩

theorem soundTree_uneditable : (uneditable : State T).SoundTree := by
  refine StateSpec.soundTree_parallel rfl (by simp [uneditable]) rfl (by simp [uneditable]) ?_
  simp only [uneditable, List.forall_mem_cons, List.not_mem_nil, false_imp_iff, implies_true,
    and_true]
  exact ⟨⟨show isValidKey "lock" = true by decide, soundTree_region (by decide) (by decide) ..⟩,
    show isValidKey "access" = true by decide, soundTree_region (by decide) (by decide) ..⟩

theorem soundTree_editable (isDirty : DirtyTest T) (idleDelay : Option Duration) :
    (editable isDirty idleDelay).SoundTree := by
  refine StateSpec.soundTree_compound rfl (by simp [editable])
    (by simp [editable, key_activityState]) ?_
  simp only [editable, List.forall_mem_cons, List.not_mem_nil, false_imp_iff, implies_true,
    and_true, key_activityState]
  exact ⟨⟨by decide, soundTree_activityState ..⟩, by decide, soundTree_activityState ..⟩

theorem soundTree_spec (isDirty : DirtyTest T) (idleDelay : Option Duration) :
    (spec isDirty idleDelay).root.SoundTree := by
  refine StateSpec.soundTree_compound rfl (by simp [ChartSpec.root])
    (by simp [ChartSpec.root, spec, editable]) ?_
  simp only [ChartSpec.root, spec, List.forall_mem_cons, List.not_mem_nil, false_imp_iff,
    implies_true, and_true]
  exact ⟨⟨show isValidKey "editable" = true by decide, soundTree_editable isDirty idleDelay⟩,
    show isValidKey "uneditable" = true by decide, soundTree_uneditable⟩

theorem treeProblems_spec (isDirty : DirtyTest T) (idleDelay : Option Duration) :
    (spec isDirty idleDelay).treeProblems = [] := by
  refine (StateSpec.problems_eq_nil_iff _ _ _ _).mpr ⟨soundTree_spec isDirty idleDelay, ?_, by simp⟩
  have hpaths : (spec isDirty idleDelay).root.paths .root = (places idleDelay).map (·.1) := by
    cases idleDelay <;> rfl
  have huntimed : (untimedPlaces.map (·.1)).Nodup := by decide
  have htimed : (timedPlaces.map (·.1)).Nodup := by decide
  rw [hpaths]
  cases idleDelay with
  | none => exact huntimed
  | some delay => exact htimed

theorem eventProblems_spec (isDirty : DirtyTest T) (idleDelay : Option Duration) :
    (spec isDirty idleDelay).eventProblems = [] := by
  have hcount : (spec isDirty idleDelay).entries.map (·.spec.on.length) =
      (nodes isDirty idleDelay).map (·.on.length) := by
    cases idleDelay <;> rfl
  have hindex : idAt (spec isDirty idleDelay).entries = place idleDelay :=
    index_spec isDirty idleDelay
  rw [ChartSpec.eventProblems, hindex]
  refine List.flatMap_eq_nil_iff.mpr fun e he => filterMap_problem?_eq_nil ?_
  rw [← nodes_spec, List.map_map] at hcount
  have h := List.map_inj_left.mp hcount e he
  rw [Entry.resolveOn, List.length_map]
  exact h.symm

theorem delayProblems_spec (isDirty : DirtyTest T) (idleDelay : Option Duration) :
    (spec isDirty idleDelay).delayProblems = [] := by
  have hcount : (spec isDirty idleDelay).entries.map (·.spec.after.head?.isSome) =
      (nodes isDirty idleDelay).map (·.after.isSome) := by
    cases idleDelay <;> rfl
  have hindex : idAt (spec isDirty idleDelay).entries = place idleDelay :=
    index_spec isDirty idleDelay
  rw [ChartSpec.delayProblems, hindex]
  refine List.filterMap_eq_nil_iff.mpr fun e he => ?_
  rw [← nodes_spec, List.map_map] at hcount
  have h := List.map_inj_left.mp hcount e he
  dsimp only [Function.comp, Entry.node, Entry.resolveAfter] at h ⊢
  cases ht : e.spec.after.head? with
  | none => rfl
  | some t =>
    rw [ht] at h
    cases hc : t.2.resolve "editor" (place idleDelay) e.path (Trigger.delayText e.path) with
    | ok c => simp [hc, problem?, spec]
    | error p => simp [hc, Except.toOption] at h

/-- The editor's chart is built whatever the dirtiness test and the delay. -/
theorem build_spec (isDirty : DirtyTest T) (idleDelay : Option Duration) :
    (spec isDirty idleDelay).build = .ok (machine isDirty idleDelay) := by
  refine ChartSpec.build_eq_ok_iff.mpr ⟨?_, ?_⟩
  · rw [ChartSpec.problems, treeProblems_spec, eventProblems_spec, delayProblems_spec]
    rfl
  · have hindex : idAt (spec isDirty idleDelay).entries = place idleDelay :=
      index_spec isDirty idleDelay
    rw [machine, ← nodes_spec, ← hindex]
    rfl

end Editor
end Statechart
