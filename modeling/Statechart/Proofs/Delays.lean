import Statechart.Proofs.Run

/-! Delays. A step starts the delay of a state whenever it enters the state and ends it whenever it
exits the state, so what it fires tells which of the states with a delay are active after it. -/
namespace Statechart

variable {C E : Type}

namespace Fired

def isTimed : Fired → Bool
  | .schedule .. | .cancel .. => true
  | _ => false

/-- Whether a state with a delay is active after something was fired, if it was so before or not. -/
def tell (state : Path) (was : Bool) : Fired → Bool
  | .schedule p _ => p == state || was
  | .cancel p => p != state && was
  | _ => was

def tells (state : Path) (was : Bool) (fired : List Fired) : Bool := fired.foldl (tell state) was

theorem tells_append (state : Path) (was : Bool) (fs gs : List Fired) :
    tells state was (fs ++ gs) = tells state (tells state was fs) gs := List.foldl_append

theorem tells_filter_of {keep : Fired → Bool} {state : Path}
    (h : ∀ f was, keep f = false → tell state was f = was) {was : Bool} {fired : List Fired} :
    tells state was (fired.filter keep) = tells state was fired := by
  induction fired generalizing was with
  | nil => rfl
  | cons f rest ih =>
    by_cases hf : keep f = true
    · rw [List.filter_cons_of_pos hf]
      exact ih
    · rw [List.filter_cons_of_neg hf, ih]
      exact congrArg (tells state · rest) (h f was (Bool.eq_false_iff.mpr hf)).symm

theorem tells_filter (state : Path) (was : Bool) (fired : List Fired) :
    tells state was (fired.filter isTimed) = tells state was fired := by
  refine tells_filter_of fun f was hf => ?_
  cases f <;> first | rfl | cases hf

theorem of_tells {state : Path} {was : Bool} {fired : List Fired}
    (h : tells state was fired = true) :
    (∃ d, .schedule state d ∈ fired) ∨ (was = true ∧ .cancel state ∉ fired) := by
  induction fired generalizing was with
  | nil => exact .inr ⟨h, List.not_mem_nil⟩
  | cons f rest ih =>
    rcases ih h with ⟨d, hd⟩ | ⟨hwas, hrest⟩
    · exact .inl ⟨d, List.mem_cons_of_mem _ hd⟩
    · cases f with
      | schedule p d =>
        by_cases hp : p = state
        · exact .inl ⟨d, hp ▸ List.mem_cons_self⟩
        · exact .inr ⟨by simpa [tell, hp] using hwas, by simp [hrest]⟩
      | cancel p =>
        simp only [tell, Bool.and_eq_true, bne_iff_ne] at hwas
        exact .inr ⟨hwas.2, by simp [hrest, Ne.symm hwas.1]⟩
      | run name => exact .inr ⟨hwas, by simp [hrest]⟩
      | assign name => exact .inr ⟨hwas, by simp [hrest]⟩

theorem of_not_tells {state : Path} {was : Bool} {fired : List Fired}
    (h : tells state was fired = false) :
    .cancel state ∈ fired ∨ (was = false ∧ ∀ d, .schedule state d ∉ fired) := by
  induction fired generalizing was with
  | nil => exact .inr ⟨h, fun _ => List.not_mem_nil⟩
  | cons f rest ih =>
    rcases ih h with hc | ⟨hwas, hrest⟩
    · exact .inl (List.mem_cons_of_mem _ hc)
    · cases f with
      | schedule p d =>
        simp only [tell, Bool.or_eq_false_iff, beq_eq_false_iff_ne] at hwas
        exact .inr ⟨hwas.2, fun e => by simp [hrest e, Ne.symm hwas.1]⟩
      | cancel p =>
        by_cases hp : p = state
        · exact .inl (hp ▸ List.mem_cons_self)
        · exact .inr ⟨by simpa [tell, hp] using hwas, fun e => by simp [hrest e]⟩
      | run name => exact .inr ⟨hwas, fun e => by simp [hrest e]⟩
      | assign name => exact .inr ⟨hwas, fun e => by simp [hrest e]⟩

end Fired

namespace Chart

variable {m : Chart C E}

def started (m : Chart C E) (id : NodeId) : List Fired :=
  (m.node? id).toList.flatMap fun n => n.after.toList.map fun d => .schedule n.path d.delay

def ended (m : Chart C E) (id : NodeId) : List Fired :=
  (m.node? id).toList.flatMap fun n => n.after.toList.map fun _ => .cancel n.path

theorem mem_started {id : NodeId} {f : Fired} :
    f ∈ m.started id ↔
      ∃ n d, m.node? id = some n ∧ n.after = some d ∧ f = .schedule n.path d.delay := by
  simp only [started, List.mem_flatMap, Option.mem_toList, List.mem_map]
  constructor
  · rintro ⟨n, hn, d, hd, rfl⟩
    exact ⟨n, d, hn, hd, rfl⟩
  · rintro ⟨n, d, hn, hd, rfl⟩
    exact ⟨n, hn, d, hd, rfl⟩

theorem mem_ended {id : NodeId} {f : Fired} :
    f ∈ m.ended id ↔ ∃ n, m.node? id = some n ∧ n.after.isSome = true ∧ f = .cancel n.path := by
  simp only [ended, List.mem_flatMap, Option.mem_toList, List.mem_map,
    Option.isSome_iff_exists]
  constructor
  · rintro ⟨n, hn, d, hd, rfl⟩
    exact ⟨n, hn, ⟨d, hd⟩, rfl⟩
  · rintro ⟨n, hn, ⟨d, hd⟩, rfl⟩
    exact ⟨n, hn, d, hd, rfl⟩

end Chart

def Progress.timed (p : Progress C) : List Fired := p.fired.filter Fired.isTimed

@[simp] theorem Progress.timed_fire (p : Progress C) (f : Fired) :
    (p.fire f).timed = p.timed ++ [f].filter Fired.isTimed := List.filter_append ..

theorem Progress.timed_act (trigger : Trigger E) (p : Progress C) (a : Action C E) :
    (p.act trigger a).timed = p.timed := by
  cases a with
  | run name => exact (timed_fire p _).trans (List.append_nil _)
  | assign name update => exact (timed_fire _ _).trans (List.append_nil _)

@[simp] theorem Progress.timed_perform (trigger : Trigger E) (p : Progress C)
    (actions : List (Action C E)) : (p.perform trigger actions).timed = p.timed := by
  unfold perform
  induction actions generalizing p with
  | nil => rfl
  | cons a rest ih => rw [List.foldl_cons, ih, timed_act]

namespace Chart

variable {m : Chart C E}

theorem timed_enter (trigger : Trigger E) (p : Progress C) (id : NodeId) :
    (m.enter trigger p id).timed = p.timed ++ m.started id := by
  unfold enter started
  cases hn : m.node? id with
  | none => simp
  | some n =>
    cases ha : n.after with
    | none => simp [ha]
    | some d => simp [ha, Fired.isTimed]

theorem timed_exit (trigger : Trigger E) (p : Progress C) (id : NodeId) :
    (m.exit trigger p id).timed = p.timed ++ m.ended id := by
  unfold exit ended
  cases hn : m.node? id with
  | none => simp
  | some n =>
    cases ha : n.after with
    | none => simp [ha]
    | some d => simp [ha, Fired.isTimed]

theorem timed_foldl_enter (trigger : Trigger E) (p : Progress C) (ids : List NodeId) :
    (ids.foldl (m.enter trigger) p).timed = p.timed ++ ids.flatMap m.started := by
  induction ids generalizing p with
  | nil => simp
  | cons id rest ih =>
    rw [List.foldl_cons, ih, timed_enter, List.append_assoc, List.flatMap_cons]

theorem timed_foldl_exit (trigger : Trigger E) (p : Progress C) (ids : List NodeId) :
    (ids.foldl (m.exit trigger) p).timed = p.timed ++ ids.flatMap m.ended := by
  induction ids generalizing p with
  | nil => simp
  | cons id rest ih =>
    rw [List.foldl_cons, ih, timed_exit, List.append_assoc, List.flatMap_cons]

theorem delayed_of_started {id : NodeId} {state : Path} {d : Duration}
    (h : .schedule state d ∈ m.started id) :
    ∃ i n, m.node? i = some n ∧ n.after.isSome = true ∧ n.path = state := by
  obtain ⟨n, d', hn, hd, heq⟩ := mem_started.mp h
  obtain ⟨rfl, -⟩ := Fired.schedule.inj heq
  exact ⟨id, n, hn, by simp [hd], rfl⟩

/-- What taking a selected transition fires about delays. -/
def delaysOf (m : Chart C E) (active : List NodeId) (selected : NodeId × Candidate C E) :
    List Fired :=
  let (source, candidate) := selected
  if !active.contains source then []
  else if candidate.internal && candidate.target == source then []
  else
    let domain := m.domain source candidate.target candidate.internal
    (active.filter (m.isAncestor domain)).reverse.flatMap m.ended ++
      (m.entrySet domain candidate.target).flatMap m.started

theorem timed_take (trigger : Trigger E) (p : Progress C) (selected : NodeId × Candidate C E) :
    (m.take trigger p selected).timed = p.timed ++ m.delaysOf p.active selected := by
  obtain ⟨source, candidate⟩ := selected
  unfold take delaysOf
  dsimp only
  split
  · simp
  · split
    · simp
    · -- the new set of active nodes is no part of what was fired
      refine (timed_foldl_enter ..).trans ?_
      rw [Progress.timed_perform, timed_foldl_exit, List.append_assoc]

theorem mem_delaysOf {active : List NodeId} {selected : NodeId × Candidate C E} {f : Fired}
    (h : f ∈ m.delaysOf active selected) : ∃ id, f ∈ m.ended id ∨ f ∈ m.started id := by
  unfold delaysOf at h
  split at h
  split at h
  · simp at h
  · split at h
    · simp at h
    · rcases List.mem_append.mp h with h | h
      · obtain ⟨id, -, hid⟩ := List.mem_flatMap.mp h
        exact ⟨id, .inl hid⟩
      · obtain ⟨id, -, hid⟩ := List.mem_flatMap.mp h
        exact ⟨id, .inr hid⟩

namespace IsTree

variable (tree : m.IsTree)
include tree

theorem tells_started {i : NodeId} {n : Node C E} (hn : m.node? i = some n)
    (hd : n.after.isSome = true) (j : NodeId) (was : Bool) :
    Fired.tells n.path was (m.started j) = (j == i || was) := by
  obtain ⟨d, hd⟩ := Option.isSome_iff_exists.mp hd
  by_cases hj : j = i
  · subst hj
    simp [started, hn, hd, Fired.tells, Fired.tell]
  · rw [beq_false_of_ne hj, Bool.false_or]
    unfold started
    cases hn' : m.node? j with
    | none => rfl
    | some n' =>
      have hp : (n'.path == n.path) = false :=
        beq_false_of_ne fun hp => hj (tree.path_inj hn' hn hp)
      cases hd' : n'.after <;> simp [hd', Fired.tells, Fired.tell, hp]

theorem tells_ended {i : NodeId} {n : Node C E} (hn : m.node? i = some n)
    (hd : n.after.isSome = true) (j : NodeId) (was : Bool) :
    Fired.tells n.path was (m.ended j) = (j != i && was) := by
  obtain ⟨d, hd⟩ := Option.isSome_iff_exists.mp hd
  by_cases hj : j = i
  · subst hj
    simp [ended, hn, hd, Fired.tells, Fired.tell]
  · rw [bne_iff_ne.mpr hj, Bool.true_and]
    unfold ended
    cases hn' : m.node? j with
    | none => rfl
    | some n' =>
      have hp : (n'.path != n.path) = true :=
        bne_iff_ne.mpr fun hp => hj (tree.path_inj hn' hn hp)
      cases hd' : n'.after <;> simp [hd', Fired.tells, Fired.tell, hp]

theorem tells_flatMap_started {i : NodeId} {n : Node C E} (hn : m.node? i = some n)
    (hd : n.after.isSome = true) (ids : List NodeId) (was : Bool) :
    Fired.tells n.path was (ids.flatMap m.started) = (ids.contains i || was) := by
  induction ids generalizing was with
  | nil => rfl
  | cons j rest ih =>
    rw [List.flatMap_cons, Fired.tells_append, ih, tree.tells_started hn hd, List.contains_cons,
      Bool.beq_comm, ← Bool.or_assoc, Bool.or_comm (rest.contains i)]

theorem tells_flatMap_ended {i : NodeId} {n : Node C E} (hn : m.node? i = some n)
    (hd : n.after.isSome = true) (ids : List NodeId) (was : Bool) :
    Fired.tells n.path was (ids.flatMap m.ended) = (!ids.contains i && was) := by
  induction ids generalizing was with
  | nil => rfl
  | cons j rest ih =>
    rw [List.flatMap_cons, Fired.tells_append, ih, tree.tells_ended hn hd, List.contains_cons,
      Bool.not_or, Bool.beq_comm, ← Bool.and_assoc, Bool.and_comm (!rest.contains i)]
    rfl

theorem tells_delaysOf {i : NodeId} {n : Node C E} (hn : m.node? i = some n)
    (hd : n.after.isSome = true) (active : List NodeId) (selected : NodeId × Candidate C E) :
    Fired.tells n.path (active.contains i) (m.delaysOf active selected) =
      (m.advance active selected).contains i := by
  obtain ⟨source, candidate⟩ := selected
  unfold delaysOf advance
  dsimp only
  split
  · rfl
  · split
    · rfl
    · have hid : i ∈ m.ids := mem_ids.mpr ⟨n, hn⟩
      rw [Fired.tells_append, tree.tells_flatMap_ended hn hd, tree.tells_flatMap_started hn hd,
        Bool.eq_iff_iff]
      simp only [Bool.or_eq_true, Bool.and_eq_true, Bool.not_eq_true', List.contains_eq_mem,
        decide_eq_true_eq, List.mem_reverse, List.mem_filter, hid,
        true_and, ← Bool.not_eq_true]
      tauto

theorem active_of_cancel_delaysOf {i : NodeId} {n : Node C E} (hn : m.node? i = some n)
    {active : List NodeId} {selected : NodeId × Candidate C E}
    (h : .cancel n.path ∈ m.delaysOf active selected) : active.contains i = true := by
  unfold delaysOf at h
  split at h
  split at h
  · simp at h
  · split at h
    · simp at h
    · rcases List.mem_append.mp h with h | h
      · obtain ⟨j, hj, hend⟩ := List.mem_flatMap.mp h
        obtain ⟨n', hn', -, heq⟩ := mem_ended.mp hend
        obtain rfl := tree.path_inj hn' hn (Fired.cancel.inj heq).symm
        simpa using (List.mem_filter.mp (List.mem_reverse.mp hj)).1
      · obtain ⟨j, -, hstart⟩ := List.mem_flatMap.mp h
        obtain ⟨n', d, -, -, heq⟩ := mem_started.mp hstart
        cases heq

end IsTree

/-- What taking selected transitions one after another fires about delays. -/
def delays (m : Chart C E) : List NodeId → List (NodeId × Candidate C E) → List Fired
  | _, [] => []
  | active, s :: rest => m.delaysOf active s ++ m.delays (m.advance active s) rest

theorem timed_foldl_take (trigger : Trigger E) (p : Progress C)
    (selected : List (NodeId × Candidate C E)) :
    (selected.foldl (m.take trigger) p).timed = p.timed ++ m.delays p.active selected := by
  induction selected generalizing p with
  | nil => exact (List.append_nil _).symm
  | cons s rest ih =>
    rw [List.foldl_cons, ih, timed_take, take_active, List.append_assoc]
    rfl

theorem mem_delays {active : List NodeId} {selected : List (NodeId × Candidate C E)} {f : Fired}
    (h : f ∈ m.delays active selected) : ∃ id, f ∈ m.ended id ∨ f ∈ m.started id := by
  induction selected generalizing active with
  | nil => exact absurd h List.not_mem_nil
  | cons s rest ih => exact (List.mem_append.mp h).elim mem_delaysOf ih

namespace IsTree

variable (tree : m.IsTree)
include tree

theorem tells_delays {i : NodeId} {n : Node C E} (hn : m.node? i = some n)
    (hd : n.after.isSome = true) (active : List NodeId)
    (selected : List (NodeId × Candidate C E)) :
    Fired.tells n.path (active.contains i) (m.delays active selected) =
      (selected.foldl m.advance active).contains i := by
  induction selected generalizing active with
  | nil => rfl
  | cons s rest ih =>
    rw [delays, Fired.tells_append, tree.tells_delaysOf hn hd, ih, List.foldl_cons]

theorem active_of_cancel_delays {i : NodeId} {n : Node C E} (hn : m.node? i = some n)
    (hd : n.after.isSome = true) {active : List NodeId}
    {selected : List (NodeId × Candidate C E)} (h : .cancel n.path ∈ m.delays active selected) :
    active.contains i = true ∨ ∃ d, .schedule n.path d ∈ m.delays active selected := by
  induction selected generalizing active with
  | nil => exact absurd h List.not_mem_nil
  | cons s rest ih =>
    rcases List.mem_append.mp h with h | h
    · exact .inl (tree.active_of_cancel_delaysOf hn h)
    · rcases ih h with hactive | ⟨d, hrest⟩
      · rw [← tree.tells_delaysOf hn hd] at hactive
        rcases Fired.of_tells hactive with ⟨d, hs⟩ | ⟨hwas, -⟩
        · exact .inr ⟨d, List.mem_append_left _ hs⟩
        · exact .inl hwas
      · exact .inr ⟨d, List.mem_append_right _ hrest⟩

end IsTree

def isActive (m : Chart C E) (c : Configuration) (id : NodeId) : Bool :=
  match m.activeOf c with
  | .ok active => active.contains id
  | .error _ => false

theorem IsTree.isActive_settled (tree : m.IsTree) {active : List NodeId} {c : Configuration}
    (h : m.Settled active c) (id : NodeId) : m.isActive c id = active.contains id := by
  rw [isActive, tree.activeOf_settled h]

variable [Event E]

theorem step_fired (s : Snapshot C) (trigger : Trigger E) (active : List NodeId) :
    (m.step s trigger active).fired = (m.applied s trigger active).fired := by
  unfold step
  dsimp only
  split
  · rename_i hnil
    rw [applied, List.isEmpty_iff.mp hnil]
    rfl
  · rfl

theorem fired_of_unchanged {s : Snapshot C} {trigger : Trigger E} {active : List NodeId}
    (h : (m.step s trigger active).changed = false) : (m.step s trigger active).fired = [] := by
  unfold step at h ⊢
  dsimp only at h ⊢
  split at h
  · rename_i hnil
    rw [if_pos hnil]
  · simp at h

theorem timed_applied (s : Snapshot C) (trigger : Trigger E) (active : List NodeId) :
    (m.step s trigger active).fired.filter Fired.isTimed =
      m.delays active (m.select ⟨s.context, trigger, s.configuration⟩ active).1 := by
  rw [step_fired]
  exact (timed_foldl_take ..).trans (List.nil_append _)

theorem timed_initial :
    m.initial.fired.filter Fired.isTimed = (m.defaults root).flatMap m.started :=
  (timed_foldl_enter ..).trans (List.nil_append _)

theorem cancel_not_mem_initial {state : Path} : .cancel state ∉ m.initial.fired := by
  intro h
  have htimed := List.mem_filter.mpr ⟨h, show Fired.isTimed _ = true from rfl⟩
  rw [timed_initial] at htimed
  obtain ⟨id, -, h⟩ := List.mem_flatMap.mp htimed
  obtain ⟨n, d, -, -, heq⟩ := mem_started.mp h
  cases heq

theorem delayed_of_step {s : Snapshot C} {trigger : Trigger E} {active : List NodeId}
    {state : Path} {d : Duration} (h : .schedule state d ∈ (m.step s trigger active).fired) :
    ∃ i n, m.node? i = some n ∧ n.after.isSome = true ∧ n.path = state := by
  have htimed := List.mem_filter.mpr ⟨h, show Fired.isTimed _ = true from rfl⟩
  rw [timed_applied] at htimed
  obtain ⟨id, h | h⟩ := mem_delays htimed
  · obtain ⟨n, -, -, heq⟩ := mem_ended.mp h
    cases heq
  · exact delayed_of_started h

theorem delayed_of_initial {state : Path} {d : Duration}
    (h : .schedule state d ∈ m.initial.fired) :
    ∃ i n, m.node? i = some n ∧ n.after.isSome = true ∧ n.path = state := by
  have htimed := List.mem_filter.mpr ⟨h, show Fired.isTimed _ = true from rfl⟩
  rw [timed_initial] at htimed
  obtain ⟨id, -, h⟩ := List.mem_flatMap.mp htimed
  exact delayed_of_started h

namespace IsTree

variable (tree : m.IsTree)
include tree

/-- What a step fires tells which of the states with a delay are active after it. -/
theorem tells_step {i : NodeId} {n : Node C E} (hn : m.node? i = some n)
    (hd : n.after.isSome = true) {s : Snapshot C} {active : List NodeId}
    (h : m.Settled active s.configuration) (trigger : Trigger E) :
    Fired.tells n.path (m.isActive s.configuration i) (m.step s trigger active).fired =
      m.isActive (m.step s trigger active).configuration i := by
  rw [tree.isActive_settled h, tree.isActive_settled (tree.settled_step h trigger),
    ← Fired.tells_filter, timed_applied, tree.tells_delays hn hd, applied, foldl_take_active]

theorem tells_initial {i : NodeId} {n : Node C E} (hn : m.node? i = some n)
    (hd : n.after.isSome = true) :
    Fired.tells n.path false m.initial.fired = m.isActive m.initial.configuration i := by
  rw [tree.isActive_settled tree.settled_initial, ← Fired.tells_filter, timed_initial,
    tree.tells_flatMap_started hn hd, Bool.or_false]

theorem active_of_cancel {i : NodeId} {n : Node C E} (hn : m.node? i = some n)
    (hd : n.after.isSome = true) {s : Snapshot C} {active : List NodeId}
    (h : m.Settled active s.configuration) {trigger : Trigger E}
    (hc : .cancel n.path ∈ (m.step s trigger active).fired) :
    m.isActive s.configuration i = true ∨
      ∃ d, .schedule n.path d ∈ (m.step s trigger active).fired := by
  have htimed := List.mem_filter.mpr ⟨hc, show Fired.isTimed _ = true from rfl⟩
  rw [timed_applied] at htimed
  rw [tree.isActive_settled h]
  refine (tree.active_of_cancel_delays hn hd htimed).imp_right fun ⟨d, hs⟩ => ⟨d, ?_⟩
  rw [← timed_applied] at hs
  exact (List.mem_filter.mp hs).1

/-- The end of a delay leads to a transition only while its state is active. -/
theorem active_of_changed {s : Snapshot C} {active : List NodeId}
    (h : m.Settled active s.configuration) {state : Path}
    (hc : (m.step s (.after state) active).changed = true) :
    ∃ i n, m.node? i = some n ∧ n.after.isSome = true ∧ n.path = state ∧
      m.isActive s.configuration i = true := by
  unfold step at hc
  dsimp only at hc
  split at hc
  · simp at hc
  · rename_i hne
    obtain ⟨⟨i, c⟩, hmem⟩ := List.exists_mem_of_ne_nil _ (mt List.isEmpty_iff.mpr hne)
    obtain ⟨n, hn, hdecl⟩ := declared_of_mem_select hmem
    have hactive : i ∈ active := tree.source_of_mem_select h.1 hmem
    by_cases hp : state = n.path
    · cases hd : n.after with
      | none => simp [Node.declared, hd] at hdecl
      | some d =>
        refine ⟨i, n, hn, by simp [hd], hp.symm, ?_⟩
        rw [tree.isActive_settled h]
        simpa using hactive
    · simp [Node.declared, hp] at hdecl

end IsTree
end Chart
end Statechart
