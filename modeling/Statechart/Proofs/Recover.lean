import Statechart.Proofs.Legal

/-! A configuration keeps the leaves of a legal set only, and these are enough to find the whole set
again. -/
namespace Statechart.Chart

variable {C E : Type} {m : Chart C E}

/-- Active sets are listed in document order. -/
def Arranged (m : Chart C E) (active : List NodeId) : Prop := m.ids.filter active.contains = active

theorem arranged_filter (m : Chart C E) (p : NodeId → Bool) : m.Arranged (m.ids.filter p) := by
  refine List.filter_congr fun i hi => ?_
  rw [List.contains_eq_mem, Bool.eq_iff_iff, decide_eq_true_eq, List.mem_filter]
  simp [hi]

theorem mem_configurationOf {active : List NodeId} {p : Path} :
    p ∈ (m.configurationOf active).leaves ↔
      ∃ i ∈ active, ∃ n, m.node? i = some n ∧ n.isAtomic = true ∧ n.path = p := by
  simp only [configurationOf, Configuration.mem_ofLeaves, List.mem_map, List.mem_filter,
    List.mem_filterMap]
  constructor
  · rintro ⟨n, ⟨⟨i, hi, hn⟩, ha⟩, rfl⟩
    exact ⟨i, hi, n, hn, ha, rfl⟩
  · rintro ⟨i, hi, n, hn, ha, rfl⟩
    exact ⟨n, ⟨⟨i, hi, hn⟩, ha⟩, rfl⟩

theorem isActive_configurationOf (m : Chart C E) (active : List NodeId) (p : Path) :
    (m.configurationOf active).isActive p =
      (((active.filterMap m.node?).filter (·.isAtomic)).map (·.path)).any p.contains := by
  rw [Bool.eq_iff_iff, Configuration.isActive, List.any_eq_true, List.any_eq_true]
  simp only [configurationOf, Configuration.mem_ofLeaves]

namespace IsTree

variable (tree : m.IsTree)
include tree

theorem lookup_eq_ok_iff {p : Path} {i : NodeId} :
    m.lookup p = .ok i ↔ ∃ n, m.node? i = some n ∧ n.path = p := by
  have hfind : ∀ {n}, m.find? p = some n → m.node? n.id = some n ∧ n.path = p := by
    intro n hn
    obtain ⟨j, hj, rfl⟩ := Array.mem_iff_getElem.mp (Array.mem_of_find?_eq_some hn)
    have hnode : m.node? j = some m.nodes[j] := Array.getElem?_eq_getElem hj
    exact ⟨(tree.id_eq hnode).symm ▸ hnode, by simpa using Array.find?_some hn⟩
  unfold lookup
  constructor
  · intro h
    split at h
    · rename_i n hn
      obtain rfl := Except.ok.inj h
      exact ⟨n, hfind hn⟩
    · simp at h
  · rintro ⟨n, hn, rfl⟩
    have hsome : (m.find? n.path).isSome = true := by
      rw [find?, Array.find?_isSome]
      exact ⟨n, Array.mem_of_getElem? hn, by simp⟩
    obtain ⟨n', hn'⟩ := Option.isSome_iff_exists.mp hsome
    have hid := tree.path_inj (hfind hn').1 hn (hfind hn').2
    simp [hn', hid]

theorem mapM_lookup (ps : List Path) (h : ∀ p ∈ ps, ∃ i n, m.node? i = some n ∧ n.path = p) :
    ∃ ids, ps.mapM m.lookup = .ok ids ∧
      ∀ i, i ∈ ids ↔ ∃ n, m.node? i = some n ∧ n.path ∈ ps := by
  induction ps with
  | nil => exact ⟨[], rfl, by simp⟩
  | cons p rest ih =>
    obtain ⟨ids, hids, hmem⟩ := ih fun q hq => h q (List.mem_cons_of_mem _ hq)
    obtain ⟨j, n, hn, hp⟩ := h p List.mem_cons_self
    have hj := tree.lookup_eq_ok_iff.mpr ⟨n, hn, hp⟩
    refine ⟨j :: ids, by simp [List.mapM_cons, hj, hids, bind, Except.bind, pure, Except.pure],
      fun i => ?_⟩
    rw [List.mem_cons, hmem]
    constructor
    · rintro (rfl | ⟨n', hn', hq⟩)
      · exact ⟨n, hn, by simp [hp]⟩
      · exact ⟨n', hn', List.mem_cons_of_mem _ hq⟩
    · rintro ⟨n', hn', hq⟩
      rcases List.mem_cons.mp hq with hq | hq
      · exact .inl (tree.path_inj hn' hn (hq.trans hp.symm))
      · exact .inr ⟨n', hn', hq⟩

/-- At or below each node of a legal set an atomic node is active. -/
theorem exists_leaf {active : List NodeId} (legal : m.Legal active) {i : NodeId} (h : i ∈ active) :
    ∃ leaf ∈ active, m.isAtomic leaf = true ∧ (leaf = i ∨ i ∈ m.ancestors leaf) := by
  induction legal.nodes i h using tree.up_induction with
  | node i hi ih =>
    have below : ∀ c ∈ m.children i, c ∈ active →
        ∃ leaf ∈ active, m.isAtomic leaf = true ∧ (leaf = i ∨ i ∈ m.ancestors leaf) := by
      intro c hc hact
      obtain ⟨leaf, hl, ha, hcl⟩ := ih c hc hact
      exact ⟨leaf, hl, ha, .inr (tree.parent_above hc hcl)⟩
    rcases kind_cases hi with ha | hc | hp
    · exact ⟨i, h, ha, .inl rfl⟩
    · obtain ⟨c, ⟨hc, hact⟩, -⟩ := legal.compound i h hc
      exact below c hc hact
    · obtain ⟨c, hc⟩ := List.exists_mem_of_ne_nil _ (tree.parallel hp)
      exact below c hc (legal.parallel i h hp c hc)

theorem mem_of_ancestors {active : List NodeId} (legal : m.Legal active) {a i : NodeId}
    (hi : i ∈ active) (ha : a ∈ m.ancestors i) : a ∈ active := by
  induction ha using tree.below_induction with
  | child c hc => exact legal.parent hi (tree.parent_child hc)
  | deeper p c hc _ ih => exact ih (legal.parent hi (tree.parent_child hc))

theorem activeOf_configurationOf {active : List NodeId} (legal : m.Legal active)
    (arranged : m.Arranged active) : m.activeOf (m.configurationOf active) = .ok active := by
  have hleaf : ∀ i, (∃ n, m.node? i = some n ∧ n.path ∈ (m.configurationOf active).leaves) ↔
      i ∈ active ∧ m.isAtomic i = true := by
    intro i
    constructor
    · rintro ⟨n, hn, hp⟩
      obtain ⟨j, hj, n', hn', ha, hpath⟩ := mem_configurationOf.mp hp
      obtain rfl := tree.path_inj hn' hn hpath
      exact ⟨hj, by simp [isAtomic, hn', ha]⟩
    · rintro ⟨hi, ha⟩
      obtain ⟨n, hn⟩ := mem_ids.mp (legal.nodes i hi)
      have hatomic : n.isAtomic = true := by simpa [isAtomic, hn] using ha
      exact ⟨n, hn, mem_configurationOf.mpr ⟨i, hi, n, hn, hatomic, rfl⟩⟩
  have hpaths : ∀ p ∈ (m.configurationOf active).leaves,
      ∃ i n, m.node? i = some n ∧ n.path = p := by
    intro p hp
    obtain ⟨i, _, n, hn, _, hpath⟩ := mem_configurationOf.mp hp
    exact ⟨i, n, hn, hpath⟩
  obtain ⟨ids, hids, hmem⟩ := tree.mapM_lookup (m.configurationOf active).leaves hpaths
  have hactive : ∀ i, (ids.any fun leaf => leaf == i || m.isAncestor i leaf) = true ↔
      i ∈ active := by
    intro i
    simp only [List.any_eq_true, Bool.or_eq_true, beq_iff_eq, isAncestor_iff, hmem, hleaf]
    constructor
    · rintro ⟨leaf, ⟨hl, -⟩, rfl | hi⟩
      · exact hl
      · exact tree.mem_of_ancestors legal hl hi
    · intro hi
      obtain ⟨leaf, hl, ha, h⟩ := tree.exists_leaf legal hi
      exact ⟨leaf, ⟨hl, ha⟩, h⟩
  unfold activeOf
  rw [hids]
  refine congrArg Except.ok (Eq.trans (List.filter_congr fun i _ => ?_) arranged)
  rw [Bool.eq_iff_iff, hactive, List.contains_eq_mem, decide_eq_true_eq]

end IsTree
end Statechart.Chart
