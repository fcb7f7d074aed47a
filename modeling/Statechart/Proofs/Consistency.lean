import Statechart.Proofs.Run

/-! The check of a configuration looks at the nodes at and above what is listed. So it finds out
whether these are a legal set, but not whether all that is listed is a leaf of it. -/
namespace Statechart

namespace Chart

variable {C E : Type} {m : Chart C E}

/-- The configuration lists just the leaves of a legal set. -/
def Stands (m : Chart C E) (c : Configuration) : Prop :=
  ∃ active, m.Legal active ∧ ∀ p, p ∈ c.leaves ↔
    ∃ i ∈ active, ∃ n, m.node? i = some n ∧ n.isAtomic = true ∧ n.path = p

/-- The configuration lists all the leaves of a legal set, and other nodes of it at most. -/
def Spans (m : Chart C E) (active : List NodeId) (c : Configuration) : Prop :=
  m.Legal active ∧
    (∀ p ∈ c.leaves, ∃ i ∈ active, ∃ n, m.node? i = some n ∧ n.path = p) ∧
    ∀ i ∈ active, ∀ n, m.node? i = some n → n.isAtomic = true → n.path ∈ c.leaves

theorem known_of_mapM_lookup {ps : List Path} {ids : List NodeId}
    (h : ps.mapM m.lookup = .ok ids) : ∀ p ∈ ps, ∃ i, m.lookup p = .ok i := by
  induction ps generalizing ids with
  | nil => simp
  | cons q rest ih =>
    rw [List.mapM_cons] at h
    obtain ⟨j, hj, h⟩ := Except.bind_eq_ok.mp h
    obtain ⟨ids', hids', -⟩ := Except.bind_eq_ok.mp h
    exact List.forall_mem_cons.mpr ⟨⟨j, hj⟩, ih hids'⟩

namespace IsTree

variable (tree : m.IsTree)
include tree

theorem activeOf_cases {c : Configuration} {active : List NodeId} (h : m.activeOf c = .ok active) :
    (∀ p ∈ c.leaves, ∃ i n, m.node? i = some n ∧ n.path = p) ∧
      ∀ i, i ∈ active ↔ i ∈ m.ids ∧ ∃ j n, m.node? j = some n ∧ n.path ∈ c.leaves ∧
        (j = i ∨ i ∈ m.ancestors j) := by
  unfold activeOf at h
  obtain ⟨ids, hids, h⟩ := Except.bind_eq_ok.mp h
  obtain rfl := Except.ok.inj h
  have known : ∀ p ∈ c.leaves, ∃ i n, m.node? i = some n ∧ n.path = p := by
    intro p hp
    obtain ⟨i, hi⟩ := known_of_mapM_lookup hids p hp
    exact ⟨i, tree.lookup_eq_ok_iff.mp hi⟩
  obtain ⟨ids', hids', hmem⟩ := tree.mapM_lookup c.leaves known
  obtain rfl : ids = ids' := Except.ok.inj (hids.symm.trans hids')
  refine ⟨known, fun i => ?_⟩
  rw [List.mem_filter, List.any_eq_true]
  simp only [Bool.or_eq_true, beq_iff_eq, isAncestor_iff, hmem]
  refine and_congr_right fun _ => ⟨?_, ?_⟩
  · rintro ⟨j, ⟨n, hn, hp⟩, hji⟩
    exact ⟨j, n, hn, hp, hji⟩
  · rintro ⟨j, n, hn, hp, hji⟩
    exact ⟨j, ⟨n, hn, hp⟩, hji⟩

theorem mem_ids_of_activeOf {c : Configuration} {active : List NodeId}
    (h : m.activeOf c = .ok active) {i : NodeId} (hi : i ∈ active) : i ∈ m.ids :=
  (((tree.activeOf_cases h).2 i).mp hi).1

theorem exists_activeOf {c : Configuration}
    (known : ∀ p ∈ c.leaves, ∃ i n, m.node? i = some n ∧ n.path = p) :
    ∃ active, m.activeOf c = .ok active := by
  obtain ⟨ids, hids, -⟩ := tree.mapM_lookup c.leaves known
  exact ⟨_, by rw [activeOf, hids]; rfl⟩

theorem mem_activeOf_spans {active active' : List NodeId} {c : Configuration}
    (spans : m.Spans active c) (h : m.activeOf c = .ok active') (i : NodeId) :
    i ∈ active' ↔ i ∈ active := by
  obtain ⟨legal, hlisted, hleaves⟩ := spans
  rw [(tree.activeOf_cases h).2]
  constructor
  · rintro ⟨-, j, n, hn, hp, hji⟩
    obtain ⟨j', hj', n', hn', hpath⟩ := hlisted _ hp
    obtain rfl := tree.path_inj hn' hn hpath
    rcases hji with rfl | hij
    · exact hj'
    · exact tree.mem_of_ancestors legal hj' hij
  · intro hi
    obtain ⟨leaf, hl, ha, hli⟩ := tree.exists_leaf legal hi
    obtain ⟨n, hn⟩ := mem_ids.mp (legal.nodes leaf hl)
    have hatomic : n.isAtomic = true := by simpa [isAtomic, hn] using ha
    exact ⟨legal.nodes i hi, leaf, n, hn, hleaves leaf hl n hn hatomic, hli⟩

/-- A legal set at and above what is listed is spanned by it, as a leaf has nothing below it. -/
theorem spans_of_activeOf {active : List NodeId} {c : Configuration}
    (h : m.activeOf c = .ok active) (legal : m.Legal active) : m.Spans active c := by
  obtain ⟨known, hmem⟩ := tree.activeOf_cases h
  refine ⟨legal, fun p hp => ?_, fun i hi n hn hatomic => ?_⟩
  · obtain ⟨i, n, hn, rfl⟩ := known p hp
    exact ⟨i, (hmem i).mpr ⟨mem_ids.mpr ⟨n, hn⟩, i, n, hn, hp, .inl rfl⟩, n, hn, rfl⟩
  · obtain ⟨-, j, n', hn', hp, rfl | hij⟩ := (hmem i).mp hi
    · rw [hn] at hn'
      exact Option.some.inj hn' ▸ hp
    · obtain ⟨d, hd, -⟩ := tree.exists_child_above hij
      have hnone := tree.atomic (i := i) (by simpa [isAtomic, hn] using hatomic)
      simp [hnone] at hd

theorem isConsistent_eq_true_iff {c : Configuration} :
    m.isConsistent c = true ↔ ∃ active, m.Spans active c := by
  unfold isConsistent
  constructor
  · intro h
    split at h
    · rename_i active hactive
      have nodes : ∀ i ∈ active, i ∈ m.ids := fun i => tree.mem_ids_of_activeOf hactive
      exact ⟨active, tree.spans_of_activeOf hactive ((tree.isLegal_iff nodes).mp h)⟩
    · cases h
  · rintro ⟨active, spans⟩
    have known : ∀ p ∈ c.leaves, ∃ i n, m.node? i = some n ∧ n.path = p := by
      intro p hp
      obtain ⟨i, -, n, hn, hpath⟩ := spans.2.1 p hp
      exact ⟨i, n, hn, hpath⟩
    obtain ⟨active', hactive'⟩ := tree.exists_activeOf known
    have legal := spans.1.congr (tree.mem_activeOf_spans spans hactive')
    simpa [hactive'] using (tree.isLegal_iff legal.nodes).mpr legal

omit tree in
theorem spans_of_leaves {active : List NodeId} {c : Configuration} (legal : m.Legal active)
    (h : ∀ p, p ∈ c.leaves ↔
      ∃ i ∈ active, ∃ n, m.node? i = some n ∧ n.isAtomic = true ∧ n.path = p) :
    m.Spans active c := by
  refine ⟨legal, fun p hp => ?_, fun i hi n hn ha => (h n.path).mpr ⟨i, hi, n, hn, ha, rfl⟩⟩
  obtain ⟨i, hi, n, hn, -, hpath⟩ := (h p).mp hp
  exact ⟨i, hi, n, hn, hpath⟩

/-- The leaves of a legal set span it; what spans it besides lists a node that is no leaf. -/
theorem stands_iff_spans {c : Configuration} :
    m.Stands c ↔ (∃ active, m.Spans active c) ∧
      ∀ p ∈ c.leaves, ∃ i n, m.node? i = some n ∧ n.isAtomic = true ∧ n.path = p := by
  constructor
  · rintro ⟨active, legal, hleaves⟩
    refine ⟨⟨active, spans_of_leaves legal hleaves⟩, fun p hp => ?_⟩
    obtain ⟨i, -, n, hn, ha, hpath⟩ := (hleaves p).mp hp
    exact ⟨i, n, hn, ha, hpath⟩
  · rintro ⟨⟨active, legal, hlisted, hleaves⟩, hatomic⟩
    refine ⟨active, legal, fun p => ⟨fun hp => ?_, ?_⟩⟩
    · obtain ⟨i, hi, n, hn, rfl⟩ := hlisted p hp
      obtain ⟨j, n', hn', ha, hpath⟩ := hatomic _ hp
      obtain rfl := tree.path_inj hn' hn hpath
      rw [hn] at hn'
      exact ⟨j, hi, n, hn, Option.some.inj hn' ▸ ha, rfl⟩
    · rintro ⟨i, hi, n, hn, ha, rfl⟩
      exact hleaves i hi n hn ha

end IsTree

/-- The check accepts a configuration just when it lists all the leaves of a legal set, and other
nodes of that set at most. It lists the leaves alone just when it is accepted and every path it
lists is that of an atomic node. -/
theorem isConsistent_iff {spec : ChartSpec C E} (built : spec.build = .ok m) (c : Configuration) :
    (m.isConsistent c = true ↔ ∃ active, m.Spans active c) ∧
      (m.Stands c ↔ m.isConsistent c = true ∧
        ∀ p ∈ c.leaves, ∃ i n, m.node? i = some n ∧ n.isAtomic = true ∧ n.path = p) := by
  have tree := ChartSpec.isTree_of_build built
  rw [tree.isConsistent_eq_true_iff]
  exact ⟨Iff.rfl, tree.stands_iff_spans⟩

end Chart

/-- The relay at work. -/
def workLeaves : Configuration := .ofLeaves [⟨"work.left.idle"⟩, ⟨"work.right.waiting"⟩]

theorem workLeaves_stands : relay.chart.Stands workLeaves := by
  refine (Chart.isConsistent_iff relay_built workLeaves).2.mpr ⟨by decide +kernel, fun p hp => ?_⟩
  obtain rfl | rfl : p = ⟨"work.left.idle"⟩ ∨ p = ⟨"work.right.waiting"⟩ := by
    simpa using Configuration.mem_ofLeaves.mp hp
  · exact ⟨3, _, rfl, rfl, rfl⟩
  · exact ⟨6, _, rfl, rfl, rfl⟩

/-- A region listed beside its leaf goes unnoticed. -/
theorem overlisted_consistent : ∃ c, relay.chart.isConsistent c = true ∧ ¬relay.chart.Stands c := by
  refine ⟨workLeaves.insert ⟨"work.left"⟩, by decide +kernel, ?_⟩
  rintro ⟨active, -, hleaves⟩
  obtain ⟨i, -, n, hn, hatomic, hpath⟩ := (hleaves ⟨"work.left"⟩).mp (by decide +kernel)
  have hleft : ∃ n', relay.chart.node? 2 = some n' ∧ n'.path = ⟨"work.left"⟩ := ⟨_, rfl, rfl⟩
  obtain ⟨n', hn', hpath'⟩ := hleft
  obtain rfl := (ChartSpec.isTree_of_build relay_built).path_inj hn hn' (hpath.trans hpath'.symm)
  have hcompound : relay.chart.isAtomic 2 = false := by decide +kernel
  simp [Chart.isAtomic, hn, hatomic] at hcompound

end Statechart
