import Statechart.Proofs.Consistency

/-! What a selected transition does, in order. It exits what is active below its domain, innermost
first, runs its own actions, and enters what its target asks for, outermost first; what is not below
the domain stays as it is. The domain is the least compound node around source and target, unless the
transition keeps its source and goes down from there. -/
namespace Statechart

variable {C E : Type}

/-- One thing that a transition does: an action as declared, or the start or end of a delay. -/
inductive Effect (C E : Type) where
  | act (action : Action C E)
  | start (state : Path) (delay : Duration)
  | stop (state : Path)

namespace Effect

def fired : Effect C E → Fired
  | .act (.run name) => .run name
  | .act (.assign name _) => .assign name
  | .start state delay => .schedule state delay
  | .stop state => .cancel state

def state? : Effect C E → Option Path
  | .act _ => none
  | .start state _ | .stop state => some state

/-- What an effect makes of the context it sees. -/
def update (trigger : Trigger E) (context : C) : Effect C E → C
  | .act (.assign _ update) => update context trigger
  | _ => context

end Effect

namespace Progress

/-- The effects were fired in this order, and each assignment saw what those before it had made of
the context. -/
structure Performs (trigger : Trigger E) (p : Progress C) (effects : List (Effect C E))
    (q : Progress C) : Prop where
  fired : q.fired = p.fired ++ effects.map Effect.fired
  context : q.context = effects.foldl (Effect.update trigger) p.context

variable {trigger : Trigger E} {p q r : Progress C} {effects effects' : List (Effect C E)}

theorem Performs.none (hf : q.fired = p.fired) (hc : q.context = p.context) :
    p.Performs trigger [] q := ⟨by rw [hf, List.map_nil, List.append_nil], hc⟩

theorem Performs.append (h : p.Performs trigger effects q) (h' : q.Performs trigger effects' r) :
    p.Performs trigger (effects ++ effects') r where
  fired := by rw [h'.fired, h.fired, List.map_append, List.append_assoc]
  context := by rw [h'.context, h.context, List.foldl_append]

theorem performs_foldl {α : Type} {step : Progress C → α → Progress C}
    {effectsOf : α → List (Effect C E)}
    (h : ∀ (p : Progress C) (a : α), p.Performs trigger (effectsOf a) (step p a))
    (p : Progress C) (l : List α) :
    p.Performs trigger (l.flatMap effectsOf) (l.foldl step p) := by
  induction l generalizing p with
  | nil => exact .none rfl rfl
  | cons a rest ih => exact (h p a).append (ih (step p a))

theorem performs_perform (p : Progress C) (actions : List (Action C E)) :
    p.Performs trigger (actions.map .act) (p.perform trigger actions) := by
  rw [List.map_eq_flatMap]
  refine performs_foldl (fun p a => ?_) p actions
  cases a <;> exact ⟨rfl, rfl⟩

end Progress

namespace Chart

variable {m : Chart C E}

def exitEffects (m : Chart C E) (id : NodeId) : List (Effect C E) :=
  (m.node? id).toList.flatMap fun n =>
    (n.after.toList.map fun _ => .stop n.path) ++ n.exit.map .act

def entryEffects (m : Chart C E) (id : NodeId) : List (Effect C E) :=
  (m.node? id).toList.flatMap fun n =>
    n.entry.map .act ++ n.after.toList.map fun d => .start n.path d.delay

theorem performs_exit (trigger : Trigger E) (p : Progress C) (id : NodeId) :
    p.Performs trigger (m.exitEffects id) (m.exit trigger p id) := by
  unfold exit exitEffects
  cases hn : m.node? id with
  | none => exact .none rfl rfl
  | some n =>
    rw [Option.toList_some, List.flatMap_singleton]
    refine Progress.Performs.append ?_ (Progress.performs_perform _ n.exit)
    cases n.after with
    | none => exact .none rfl rfl
    | some d => exact ⟨rfl, rfl⟩

theorem performs_enter (trigger : Trigger E) (p : Progress C) (id : NodeId) :
    p.Performs trigger (m.entryEffects id) (m.enter trigger p id) := by
  unfold enter entryEffects
  cases hn : m.node? id with
  | none => exact .none rfl rfl
  | some n =>
    dsimp only
    rw [Option.toList_some, List.flatMap_singleton]
    refine (Progress.performs_perform p n.entry).append ?_
    cases n.after with
    | none => exact .none rfl rfl
    | some d => exact ⟨rfl, rfl⟩

def passEffects (m : Chart C E) (exiting : List NodeId) (actions : List (Action C E))
    (entering : List NodeId) : List (Effect C E) :=
  exiting.flatMap m.exitEffects ++ actions.map .act ++ entering.flatMap m.entryEffects

theorem performs_pass (trigger : Trigger E) (p : Progress C) (exiting : List NodeId)
    (actions : List (Action C E)) (entering : List NodeId) :
    p.Performs trigger (m.passEffects exiting actions entering)
      (entering.foldl (m.enter trigger)
        ((exiting.foldl (m.exit trigger) p).perform trigger actions)) := by
  have exited := Progress.performs_foldl (performs_exit (m := m) trigger) p exiting
  have acted := exited.append (Progress.performs_perform _ actions)
  exact acted.append (Progress.performs_foldl (performs_enter trigger) _ entering)

theorem not_mem_acts {e : Effect C E} {state : Path} (hs : e.state? = some state)
    {actions : List (Action C E)} : e ∉ actions.map .act := by
  intro he
  obtain ⟨a, -, rfl⟩ := List.mem_map.mp he
  cases hs

theorem path_of_state? {id : NodeId} {e : Effect C E} {state : Path}
    (he : e ∈ m.exitEffects id ∨ e ∈ m.entryEffects id) (hs : e.state? = some state) :
    ∃ n, m.node? id = some n ∧ n.path = state := by
  rcases he with he | he
  · obtain ⟨n, hn, he⟩ := List.mem_flatMap.mp he
    obtain ⟨d, -, rfl⟩ := List.mem_map.mp ((List.mem_append.mp he).resolve_right (not_mem_acts hs))
    exact ⟨n, Option.mem_toList.mp hn, Option.some.inj hs⟩
  · obtain ⟨n, hn, he⟩ := List.mem_flatMap.mp he
    obtain ⟨d, -, rfl⟩ := List.mem_map.mp ((List.mem_append.mp he).resolve_left (not_mem_acts hs))
    exact ⟨n, Option.mem_toList.mp hn, Option.some.inj hs⟩

/-- Whether a selected transition exits and enters nothing. -/
def inPlace (t : NodeId × Candidate C E) : Bool := t.2.internal && t.2.target == t.1

/-- The node below which a selected transition changes what is active; in place it is the source. -/
def scope (m : Chart C E) (t : NodeId × Candidate C E) : NodeId :=
  if inPlace t then t.1 else m.domain t.1 t.2.target t.2.internal

/-- The nodes that a selected transition exits, in this order, when these are active. -/
def exits (m : Chart C E) (active : List NodeId) (t : NodeId × Candidate C E) : List NodeId :=
  if active.contains t.1 && !inPlace t then (active.filter (m.isAncestor (m.scope t))).reverse
  else []

/-- The nodes that a selected transition enters, in this order. -/
def enters (m : Chart C E) (active : List NodeId) (t : NodeId × Candidate C E) : List NodeId :=
  if active.contains t.1 && !inPlace t then m.entrySet (m.scope t) t.2.target else []

/-- A selected transition whose source is not active has no effects. -/
def effectsOf (m : Chart C E) (active : List NodeId) (t : NodeId × Candidate C E) :
    List (Effect C E) :=
  if active.contains t.1 then m.passEffects (m.exits active t) t.2.actions (m.enters active t)
  else []

def effects (m : Chart C E) : List NodeId → List (NodeId × Candidate C E) → List (Effect C E)
  | _, [] => []
  | active, t :: rest => m.effectsOf active t ++ m.effects (m.advance active t) rest

theorem effects_append (active : List NodeId) (ts us : List (NodeId × Candidate C E)) :
    m.effects active (ts ++ us) =
      m.effects active ts ++ m.effects (ts.foldl m.advance active) us := by
  induction ts generalizing active with
  | nil => rfl
  | cons t rest ih =>
    rw [List.cons_append, effects, ih, effects, List.append_assoc]
    rfl

/-- Taking a selected transition does nothing, or its exits, its own actions and its entries. -/
theorem performs_take (trigger : Trigger E) (p : Progress C) (t : NodeId × Candidate C E) :
    p.Performs trigger (m.effectsOf p.active t) (m.take trigger p t) := by
  obtain ⟨source, candidate⟩ := t
  unfold take effectsOf
  dsimp only
  by_cases hs : p.active.contains source = true
  · rw [if_pos hs, hs, Bool.not_true, if_neg Bool.false_ne_true]
    by_cases hin : (candidate.internal && candidate.target == source) = true
    · rw [if_pos hin]
      have performs : p.Performs trigger (candidate.actions.map .act) _ :=
        Progress.performs_perform p candidate.actions
      simpa [passEffects, exits, enters, inPlace, hin] using performs
    · rw [if_neg hin]
      simp only [exits, enters, scope, inPlace, hs, hin, Bool.not_false, Bool.and_self, if_true,
        Bool.false_eq_true, if_false]
      have pass := performs_pass (m := m) trigger p
      exact ⟨(pass _ _ _).fired, (pass _ _ _).context⟩
  · simp only [hs, Bool.not_false, if_true, if_false, Bool.false_eq_true]
    exact .none rfl rfl

theorem performs_of_mem (trigger : Trigger E) {p : Progress C} {t : NodeId × Candidate C E}
    (hs : t.1 ∈ p.active) :
    p.Performs trigger (m.passEffects (m.exits p.active t) t.2.actions (m.enters p.active t))
      (m.take trigger p t) := by
  have performs := performs_take (m := m) trigger p t
  rwa [effectsOf, if_pos (by simpa using hs)] at performs

theorem performs_foldl_take (trigger : Trigger E) (p : Progress C)
    (ts : List (NodeId × Candidate C E)) :
    p.Performs trigger (m.effects p.active ts) (ts.foldl (m.take trigger) p) := by
  induction ts generalizing p with
  | nil => exact .none rfl rfl
  | cons t rest ih =>
    have hrest := ih (m.take trigger p t)
    rw [take_active] at hrest
    exact (performs_take trigger p t).append hrest

theorem moves_iff {active : List NodeId} {t : NodeId × Candidate C E} :
    (active.contains t.1 && !inPlace t) = true ↔ t.1 ∈ active ∧ inPlace t = false := by
  simp

theorem mem_exits {active : List NodeId} {t : NodeId × Candidate C E} {i : NodeId} :
    i ∈ m.exits active t ↔
      (t.1 ∈ active ∧ inPlace t = false) ∧ i ∈ active ∧ m.scope t ∈ m.ancestors i := by
  rw [← moves_iff, exits]
  split
  · simp only [*, true_and, List.mem_reverse, List.mem_filter, isAncestor_iff]
  · simp only [*, Bool.false_eq_true, false_and, List.not_mem_nil]

theorem mem_enters {active : List NodeId} {t : NodeId × Candidate C E} {i : NodeId} :
    i ∈ m.enters active t ↔
      (t.1 ∈ active ∧ inPlace t = false) ∧ i ∈ m.entrySet (m.scope t) t.2.target := by
  rw [← moves_iff, enters]
  split
  · simp only [*, true_and]
  · simp only [*, Bool.false_eq_true, false_and, List.not_mem_nil]

/-- After a selected transition is active what was so and was not exited, and what was entered. -/
theorem mem_advance_iff {active : List NodeId} (legal : m.Legal active)
    {t : NodeId × Candidate C E} {i : NodeId} :
    i ∈ m.advance active t ↔ (i ∈ active ∧ i ∉ m.exits active t) ∨ i ∈ m.enters active t := by
  obtain ⟨source, candidate⟩ := t
  rw [mem_exits, mem_enters]
  by_cases hs : source ∈ active
  · by_cases hin : (candidate.internal && candidate.target == source) = true
    · rw [advance_in_place hin]
      simp [inPlace, hin]
    · rw [mem_advance legal hs hin]
      simp only [scope, inPlace, hs, hin, Bool.false_eq_true, if_false]
      tauto
  · rw [advance_of_not_mem hs]
    simp [hs]

theorem IsTree.scope_above_enters (tree : m.IsTree) {active : List NodeId}
    (legal : m.Legal active) {t : NodeId × Candidate C E} (htarget : t.2.target ∈ m.ids)
    {i : NodeId} (hne : i ≠ root) (h : i ∈ m.enters active t) : m.scope t ∈ m.ancestors i := by
  obtain ⟨⟨hs, hmoves⟩, hentry⟩ := mem_enters.mp h
  have hscope : m.scope t = m.domain t.1 t.2.target t.2.internal := by simp [scope, hmoves]
  rw [hscope] at hentry ⊢
  exact tree.domain_above_entered legal hs htarget hne hentry

theorem activeOf_of_consistent {c : Configuration} (consistent : m.isConsistent c = true) :
    ∃ active, m.activeOf c = .ok active := by
  unfold isConsistent at consistent
  split at consistent
  · rename_i active hactive
    exact ⟨active, hactive⟩
  · cases consistent

theorem IsTree.legal_of_consistent (tree : m.IsTree) {c : Configuration} {active : List NodeId}
    (h : m.activeOf c = .ok active) (consistent : m.isConsistent c = true) :
    m.Legal active ∧ m.Arranged active := by
  constructor
  · rw [isConsistent, h] at consistent
    exact (tree.isLegal_iff fun i hi => tree.mem_ids_of_activeOf h hi).mp consistent
  · unfold activeOf at h
    obtain ⟨leaves, -, h⟩ := Except.bind_eq_ok.mp h
    obtain rfl := Except.ok.inj h
    exact arranged_filter m _

variable [Event E]

theorem transition_of_consistent {s : Snapshot C} {active : List NodeId}
    (h : m.activeOf s.configuration = .ok active)
    (consistent : m.isConsistent s.configuration = true) (trigger : Trigger E) :
    m.transition s trigger = .ok (m.step s trigger active) := by
  rw [isConsistent, h] at consistent
  unfold transition
  rw [h]
  exact if_pos consistent

theorem consistent_of_transition {s next : Snapshot C} {trigger : Trigger E}
    (h : m.transition s trigger = .ok next) : m.isConsistent s.configuration = true := by
  unfold transition at h
  obtain ⟨active, hactive, h⟩ := Except.bind_eq_ok.mp h
  split at h
  · rename_i hlegal
    rw [isConsistent, hactive]
    exact hlegal
  · cases h

theorem step_effects (s : Snapshot C) (trigger : Trigger E) (active : List NodeId) :
    (m.step s trigger active).fired =
      (m.effects active (m.select ⟨s.context, trigger, s.configuration⟩ active).1).map
        Effect.fired ∧
    (m.step s trigger active).context =
      (m.effects active (m.select ⟨s.context, trigger, s.configuration⟩ active).1).foldl
        (Effect.update trigger) s.context := by
  unfold step
  dsimp only
  split
  · rename_i hnil
    rw [List.isEmpty_iff.mp hnil]
    exact ⟨rfl, rfl⟩
  · have performs := performs_foldl_take (m := m) trigger ⟨active, s.context, []⟩
      (m.select ⟨s.context, trigger, s.configuration⟩ active).1
    exact ⟨performs.fired, performs.context⟩

/-- A step from a consistent configuration, where it comes to one of the transitions it has selected:
the nodes active before the step, the transitions before and after that one, and the progress that
those before it have made. -/
structure ComesTo (m : Chart C E) (s : Snapshot C) (trigger : Trigger E) (active : List NodeId)
    (earlier : List (NodeId × Candidate C E)) (t : NodeId × Candidate C E)
    (later : List (NodeId × Candidate C E)) (p : Progress C) : Prop where
  consistent : m.isConsistent s.configuration = true
  begun : m.activeOf s.configuration = .ok active
  selected : (m.select ⟨s.context, trigger, s.configuration⟩ active).1 = earlier ++ t :: later
  progress : p = earlier.foldl (m.take trigger) ⟨active, s.context, []⟩

namespace ComesTo

variable {s : Snapshot C} {trigger : Trigger E} {active : List NodeId}
  {earlier later : List (NodeId × Candidate C E)} {t : NodeId × Candidate C E} {p : Progress C}
  (turn : m.ComesTo s trigger active earlier t later p)
include turn

theorem active_eq : p.active = earlier.foldl m.advance active := by
  rw [turn.progress, foldl_take_active]

theorem mem_selected :
    t ∈ (m.select ⟨s.context, trigger, s.configuration⟩ active).1 :=
  turn.selected ▸ List.mem_append_right _ List.mem_cons_self

theorem target_mem (tree : m.IsTree) : t.2.target ∈ m.ids :=
  tree.target_of_mem_select turn.mem_selected

theorem targets_earlier (tree : m.IsTree) : ∀ u ∈ earlier, u.2.target ∈ m.ids := fun _ hu =>
  tree.target_of_mem_select (turn.selected ▸ List.mem_append_left _ hu)

theorem legal (tree : m.IsTree) : m.Legal p.active ∧ m.Arranged p.active := by
  obtain ⟨legal, arranged⟩ := tree.legal_of_consistent turn.begun turn.consistent
  rw [turn.active_eq]
  exact tree.legal_foldl_advance legal arranged (turn.targets_earlier tree)

theorem performs : Progress.Performs trigger ⟨active, s.context, []⟩ (m.effects active earlier) p :=
  turn.progress ▸ performs_foldl_take trigger ⟨active, s.context, []⟩ earlier

end ComesTo

end Chart

theorem ChartSpec.source_ne_root [Event E] {spec : ChartSpec C E} {m : Chart C E}
    (built : spec.build = .ok m) {view : GuardView C E} {active : List NodeId}
    {t : NodeId × Candidate C E} (h : t ∈ (m.select view active).1) : t.1 ≠ Chart.root := by
  obtain ⟨-, rfl⟩ := build_eq_ok_iff.mp built
  obtain ⟨n, hn, hdeclared⟩ := Chart.declared_of_mem_select h
  intro hroot
  rw [hroot, node?_root] at hn
  obtain rfl := Option.some.inj hn
  cases ht : view.trigger <;>
    simp [ht, Node.declared, Node.candidates, Entry.node, Entry.resolveOn, Entry.resolveAfter,
      StateSpec.entryAt, ChartSpec.root] at hdeclared

end Statechart
