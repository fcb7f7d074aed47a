import Mathlib.Tactic.Tauto
import Statechart.Chart.Step
import Statechart.Proofs.Recover

/-! How a step changes the set of active nodes. Actions change the context alone, so a selected
transition changes the set in a way of its own, and every such change keeps the set legal. -/
namespace Statechart

variable {C E : Type}

namespace Progress

@[simp] theorem act_active (trigger : Trigger E) (p : Progress C) (a : Action C E) :
    (p.act trigger a).active = p.active := by
  cases a <;> rfl

@[simp] theorem perform_active (trigger : Trigger E) (p : Progress C)
    (actions : List (Action C E)) :
    (p.perform trigger actions).active = p.active := by
  unfold perform
  induction actions generalizing p with
  | nil => rfl
  | cons a rest ih => rw [List.foldl_cons, ih, act_active]

end Progress

namespace Chart

variable {m : Chart C E}

/-- The active nodes once a selected transition is taken. -/
def advance (m : Chart C E) (active : List NodeId) (selected : NodeId × Candidate C E) :
    List NodeId :=
  let (source, candidate) := selected
  if !active.contains source then active
  else if candidate.internal && candidate.target == source then active
  else
    let domain := m.domain source candidate.target candidate.internal
    m.ids.filter fun id => (active.contains id && !m.isAncestor domain id) ||
      (m.entrySet domain candidate.target).contains id

theorem take_active (trigger : Trigger E) (p : Progress C) (selected : NodeId × Candidate C E) :
    (m.take trigger p selected).active = m.advance p.active selected := by
  obtain ⟨source, candidate⟩ := selected
  unfold take advance
  dsimp only
  split
  · rfl
  · split
    · exact Progress.perform_active ..
    · rfl

theorem foldl_take_active (trigger : Trigger E) (p : Progress C)
    (selected : List (NodeId × Candidate C E)) :
    (selected.foldl (m.take trigger) p).active = selected.foldl m.advance p.active := by
  induction selected generalizing p with
  | nil => rfl
  | cons s rest ih => rw [List.foldl_cons, ih, take_active, List.foldl_cons]

theorem Legal.congr {active active' : List NodeId} (legal : m.Legal active)
    (h : ∀ i, i ∈ active' ↔ i ∈ active) : m.Legal active' where
  nodes i hi := legal.nodes i ((h i).mp hi)
  rooted := (h root).mpr legal.rooted
  parent hc hp := (h _).mpr (legal.parent ((h _).mp hc) hp)
  compound i hi hc :=
    (existsUnique_congr fun c => and_congr_right fun _ => h c).mpr
      (legal.compound i ((h i).mp hi) hc)
  parallel i hi hp c hc := (h c).mpr (legal.parallel i ((h i).mp hi) hp c hc)

theorem arranged_advance {active : List NodeId} (arranged : m.Arranged active)
    (selected : NodeId × Candidate C E) : m.Arranged (m.advance active selected) := by
  unfold advance
  split
  split
  · exact arranged
  · split
    · exact arranged
    · exact arranged_filter m _

theorem advance_of_not_mem {active : List NodeId} {source : NodeId} {candidate : Candidate C E}
    (hs : source ∉ active) : m.advance active (source, candidate) = active := by
  simp [advance, hs]

theorem advance_in_place {active : List NodeId} {source : NodeId} {candidate : Candidate C E}
    (h : (candidate.internal && candidate.target == source) = true) :
    m.advance active (source, candidate) = active := by
  simp only [advance, h, if_true, ite_self]

theorem mem_advance {active : List NodeId} (legal : m.Legal active) {source : NodeId}
    {candidate : Candidate C E} (hs : source ∈ active)
    (hout : ¬(candidate.internal && candidate.target == source) = true) {i : NodeId} :
    i ∈ m.advance active (source, candidate) ↔
      (i ∈ active ∧ m.domain source candidate.target candidate.internal ∉ m.ancestors i) ∨
        i ∈ m.entrySet (m.domain source candidate.target candidate.internal) candidate.target := by
  have hentered : i ∈ m.entrySet (m.domain source candidate.target candidate.internal)
      candidate.target → i ∈ m.ids := fun h => mem_ids_of_spread h
  have hactive := legal.nodes i
  simp only [advance, List.contains_eq_mem, hs, decide_true, Bool.not_true, Bool.false_eq_true,
    if_false, hout, List.mem_filter, Bool.or_eq_true, Bool.and_eq_true, decide_eq_true_eq,
    Bool.not_eq_true', ← Bool.not_eq_true, isAncestor_iff]
  tauto

theorem domain_cases (source target : NodeId) (internal : Bool) :
    (m.domain source target internal = source ∧ m.isCompound source = true ∧
        source ∈ m.ancestors target) ∨
      (m.domain source target internal ∈ m.ancestors source ∧
        m.isCompound (m.domain source target internal) = true ∧
        m.domain source target internal ∈ m.ancestors target) ∨
      m.domain source target internal = root := by
  unfold domain
  split
  · rename_i h
    simp only [Bool.and_eq_true, isAncestor_iff] at h
    exact .inl ⟨rfl, h.1.2, h.2⟩
  · right
    cases hf : (m.ancestors source).find? fun id => m.isCompound id && m.isAncestor id target with
    | none => exact .inr rfl
    | some d =>
      have hd := List.find?_some hf
      simp only [Bool.and_eq_true, isAncestor_iff] at hd
      exact .inl ⟨List.mem_of_find?_eq_some hf, hd⟩

namespace IsTree

variable (tree : m.IsTree)
include tree

/-- The domain of a transition from an active source is active and compound, and its target lies
below it; a target at the root starts everything anew. -/
theorem domain_spec {active : List NodeId} (legal : m.Legal active) {source target : NodeId}
    (hs : source ∈ active) (ht : target ∈ m.ids) (internal : Bool) :
    m.domain source target internal ∈ active ∧
      m.isCompound (m.domain source target internal) = true ∧
      (m.domain source target internal ∈ m.ancestors target ∨
        (m.domain source target internal = root ∧ target = root)) := by
  rcases domain_cases (m := m) source target internal with ⟨heq, hc, ha⟩ | ⟨hmem, hc, ha⟩ | heq
  · rw [heq]
    exact ⟨hs, hc, .inl ha⟩
  · exact ⟨tree.mem_of_ancestors legal hs hmem, hc, .inl ha⟩
  · rw [heq]
    refine ⟨legal.rooted, tree.isCompound_root, ?_⟩
    by_cases hr : target = root
    · exact .inr ⟨rfl, hr⟩
    · exact .inl (tree.root_mem_ancestors ht hr)

theorem domain_above_entered {active : List NodeId} (legal : m.Legal active)
    {source target : NodeId} (hs : source ∈ active) (ht : target ∈ m.ids) {internal : Bool}
    {i : NodeId} (hne : i ≠ root)
    (hi : i ∈ m.entrySet (m.domain source target internal) target) :
    m.domain source target internal ∈ m.ancestors i := by
  obtain ⟨-, -, hbelow | ⟨hdomain, -⟩⟩ := tree.domain_spec legal hs ht internal
  · exact tree.domain_above_entrySet hbelow hi
  · rw [hdomain]
    exact tree.root_mem_ancestors (mem_ids_of_spread hi) hne

theorem entrySet_root : m.entrySet root root = m.defaults root := by
  refine List.filter_congr fun i _ => ?_
  have hway : m.lineage root root = [root] := by
    simp [lineage, tree.ancestors_root]
  simp only [hway]
  congr 1
  · funext id child
    by_cases h : id = root <;> simp [h]
  · funext id
    by_cases h : id = root <;> simp [h]

theorem legal_advance {active : List NodeId} (legal : m.Legal active)
    {selected : NodeId × Candidate C E} (ht : selected.2.target ∈ m.ids) :
    m.Legal (m.advance active selected) := by
  obtain ⟨source, candidate⟩ := selected
  by_cases hs : source ∈ active
  · by_cases hin : (candidate.internal && candidate.target == source) = true
    · rwa [advance_in_place hin]
    · have hmem := fun i => mem_advance (i := i) legal hs hin
      obtain ⟨hd, hc, hbelow | ⟨hroot, htarget⟩⟩ :=
        tree.domain_spec legal hs ht candidate.internal
      · exact tree.legal_fill (tree.entrySet_fills hbelow hc) hmem legal hd hc
      · refine tree.legal_defaults_root.congr fun i => ?_
        rw [hmem, hroot, htarget, tree.entrySet_root, tree.outside_root_iff legal]
        exact ⟨fun h => h.elim (fun h => h ▸ tree.legal_defaults_root.rooted) id, .inr⟩
  · rwa [advance_of_not_mem hs]

theorem legal_foldl_advance {active : List NodeId} (legal : m.Legal active)
    (arranged : m.Arranged active) {selected : List (NodeId × Candidate C E)}
    (ht : ∀ s ∈ selected, s.2.target ∈ m.ids) :
    m.Legal (selected.foldl m.advance active) ∧ m.Arranged (selected.foldl m.advance active) := by
  induction selected generalizing active with
  | nil => exact ⟨legal, arranged⟩
  | cons s rest ih =>
    exact ih (tree.legal_advance legal (ht s List.mem_cons_self))
      (arranged_advance arranged s) fun r hr => ht r (List.mem_cons_of_mem _ hr)

end IsTree

variable [Event E]

theorem choose_mem {view : GuardView C E} {source : Path} {candidates : List (Candidate C E)}
    {c : Candidate C E} (h : (choose view source candidates).1 = some c) : c ∈ candidates := by
  induction candidates with
  | nil => simp [choose] at h
  | cons d rest ih =>
    unfold choose at h
    split at h
    · exact List.mem_cons.mpr (.inl (Option.some.inj h).symm)
    · exact List.mem_cons_of_mem _ (ih h)
    · exact List.mem_cons_of_mem _ (ih h)

theorem declared_of_mem_select {view : GuardView C E} {active : List NodeId}
    {s : NodeId × Candidate C E} (h : s ∈ (m.select view active).1) :
    ∃ n, m.node? s.1 = some n ∧ s.2 ∈ n.declared view.trigger := by
  obtain ⟨id, -, hid⟩ := List.mem_filterMap.mp h
  obtain ⟨c, hc, rfl⟩ := Option.map_eq_some_iff.mp hid
  unfold chooseAt at hc
  split at hc
  · simp at hc
  · rename_i n hn
    exact ⟨n, hn, choose_mem hc⟩

theorem mem_of_declared {n : Node C E} {trigger : Trigger E} {c : Candidate C E}
    (h : c ∈ n.declared trigger) : (∃ event, (event, c) ∈ n.on) ∨ ∃ d ∈ n.after, d.candidate = c := by
  unfold Node.declared at h
  split at h
  · simp at h
  · obtain ⟨⟨event, d⟩, hd, rfl⟩ := List.mem_map.mp h
    exact .inl ⟨event, (List.mem_filter.mp hd).1⟩
  · split at h
    · obtain ⟨d, hd, heq⟩ := List.mem_map.mp h
      exact .inr ⟨d, by simpa using hd, heq⟩
    · simp at h

theorem IsTree.target_of_mem_select (tree : m.IsTree) {view : GuardView C E}
    {active : List NodeId} {s : NodeId × Candidate C E} (h : s ∈ (m.select view active).1) :
    s.2.target ∈ m.ids := by
  obtain ⟨n, hn, hc⟩ := declared_of_mem_select h
  obtain ⟨hon, hafter⟩ := tree.target hn
  rcases mem_of_declared hc with ⟨event, hc⟩ | ⟨d, hd, heq⟩
  · exact hon _ hc
  · exact heq ▸ hafter d hd

end Chart
end Statechart
