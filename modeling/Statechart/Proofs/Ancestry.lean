import Statechart.Proofs.Consistency
import Statechart.Proofs.NodePaths

/-! Ancestry of paths is a matter of text, ancestry of nodes one of the tree. On the paths of nodes
they agree, so what a configuration tells by text is told of its active nodes. -/
namespace Statechart

namespace Configuration

theorem isActive_iff {c : Configuration} {q : Path} :
    c.isActive q = true ↔ ∃ leaf ∈ c.leaves, q = leaf ∨ q.isAncestorOf leaf = true := by
  simp [isActive, Path.contains]

theorem mem_activePaths {c : Configuration} {q : Path} :
    q ∈ c.activePaths ↔ ∃ leaf ∈ c.leaves, q = leaf ∨ q ∈ leaf.ancestors := by
  simp only [activePaths, mem_ofLeaves, List.mem_flatMap, List.mem_append, List.mem_singleton]
  exact exists_congr fun leaf => and_congr_right fun _ => or_comm

theorem activePaths_bytes (c : Configuration) :
    c.activePaths.Pairwise fun p q => p.bytes < q.bytes :=
  (ofLeaves _).ascending.imp Path.lt_iff_bytes_lt.mp

end Configuration

namespace Chart

variable {C E : Type} {m : Chart C E}

/-- What a configuration says as text, told of the nodes it makes active. The root's path is listed
only if it is listed as a leaf. -/
structure TextTells (m : Chart C E) (c : Configuration) (active : List NodeId) : Prop where
  answers : ∀ q, c.isActive q = true ↔ ∃ i ∈ active, ∃ n, m.node? i = some n ∧ n.path = q
  ordered : c.activePaths.Pairwise fun p q => p.bytes < q.bytes
  lists : ∀ q, q ∈ c.activePaths ↔
    (∃ i ∈ active, i ≠ root ∧ ∃ n, m.node? i = some n ∧ n.path = q) ∨
      (q = .root ∧ .root ∈ c.leaves)
  guards : ∀ (view : GuardView C E) i n, view.configuration = c → m.node? i = some n →
    (Guard.inState n.path).check view = .ok (active.contains i) ∧
      ∀ g : Guard C E, (g.within n.path).check view =
        if active.contains i then g.check view else .ok false

theorem pathAt_eq {i : NodeId} {n : Node C E} (hn : m.node? i = some n) : m.pathAt i = n.path := by
  simp [pathAt, hn]

theorem exists_path_iff {i : NodeId} (hi : i ∈ m.ids) {q : Path} :
    (∃ n, m.node? i = some n ∧ n.path = q) ↔ m.pathAt i = q := by
  obtain ⟨n, hn⟩ := mem_ids.mp hi
  simp [pathAt, hn]

namespace IsTree

variable (tree : m.IsTree)
include tree

theorem ancestor_mem_ids {a i : NodeId} (h : a ∈ m.ancestors i) : a ∈ m.ids := by
  obtain ⟨c, hc, -⟩ := tree.exists_child_above h
  exact mem_ids_of_children hc

theorem isAncestorOf_pathAt {i : NodeId} (hi : i ∈ m.ids) (q : Path) :
    q.isAncestorOf (m.pathAt i) = true ↔ ∃ a ∈ m.ancestors i, m.pathAt a = q := by
  induction hi using tree.down_induction with
  | top => simp [tree.pathAt_root, tree.ancestors_root, Path.isAncestorOf_root]
  | child p c hc ih =>
    rw [Path.isAncestorOf_parent (tree.parent_pathAt hc), ih]
    simp [tree.ancestors_child hc, eq_comm]

theorem mem_ancestors_pathAt {i : NodeId} (hi : i ∈ m.ids) (q : Path) :
    q ∈ (m.pathAt i).ancestors ↔ ∃ a ∈ m.ancestors i, a ≠ root ∧ m.pathAt a = q := by
  rw [Path.mem_ancestors, tree.isAncestorOf_pathAt hi]
  constructor
  · rintro ⟨hq, a, ha, rfl⟩
    refine ⟨a, ha, ?_, rfl⟩
    rintro rfl
    exact hq tree.pathAt_root
  · rintro ⟨a, ha, hne, rfl⟩
    exact ⟨tree.pathAt_ne_root (tree.ancestor_mem_ids ha) hne, a, ha, rfl⟩

theorem mem_activeOf {c : Configuration} {active : List NodeId} (h : m.activeOf c = .ok active)
    (i : NodeId) : i ∈ active ↔
      ∃ j ∈ m.ids, m.pathAt j ∈ c.leaves ∧ (j = i ∨ i ∈ m.ancestors j) := by
  rw [(tree.activeOf_cases h).2]
  constructor
  · rintro ⟨-, j, n, hn, hp, hji⟩
    exact ⟨j, mem_ids.mpr ⟨n, hn⟩, (pathAt_eq hn).symm ▸ hp, hji⟩
  · rintro ⟨j, hj, hp, hji⟩
    obtain ⟨n, hn⟩ := mem_ids.mp hj
    have hi : i ∈ m.ids := by
      rcases hji with rfl | hij
      · exact hj
      · exact tree.ancestor_mem_ids hij
    exact ⟨hi, j, n, hn, pathAt_eq hn ▸ hp, hji⟩

theorem exists_leaf_iff {c : Configuration} {active : List NodeId} (h : m.activeOf c = .ok active)
    {P : Path → Prop} :
    (∃ leaf ∈ c.leaves, P leaf) ↔ ∃ j ∈ m.ids, m.pathAt j ∈ c.leaves ∧ P (m.pathAt j) := by
  constructor
  · rintro ⟨leaf, hleaf, hP⟩
    obtain ⟨j, n, hn, rfl⟩ := (tree.activeOf_cases h).1 leaf hleaf
    rw [← pathAt_eq hn] at hleaf hP
    exact ⟨j, mem_ids.mpr ⟨n, hn⟩, hleaf, hP⟩
  · rintro ⟨j, -, hleaf, hP⟩
    exact ⟨_, hleaf, hP⟩

theorem isActive_iff {c : Configuration} {active : List NodeId} (h : m.activeOf c = .ok active)
    (q : Path) : c.isActive q = true ↔ ∃ i ∈ active, m.pathAt i = q := by
  rw [Configuration.isActive_iff, tree.exists_leaf_iff h]
  simp only [tree.mem_activeOf h]
  constructor
  · rintro ⟨j, hj, hleaf, hq⟩
    rw [tree.isAncestorOf_pathAt hj] at hq
    rcases hq with rfl | ⟨i, hij, rfl⟩
    · exact ⟨j, ⟨j, hj, hleaf, .inl rfl⟩, rfl⟩
    · exact ⟨i, ⟨j, hj, hleaf, .inr hij⟩, rfl⟩
  · rintro ⟨i, ⟨j, hj, hleaf, hji⟩, rfl⟩
    refine ⟨j, hj, hleaf, ?_⟩
    rw [tree.isAncestorOf_pathAt hj]
    exact hji.imp (congrArg m.pathAt ·.symm) fun hij => ⟨i, hij, rfl⟩

theorem mem_activePaths {c : Configuration} {active : List NodeId} (h : m.activeOf c = .ok active)
    (q : Path) : q ∈ c.activePaths ↔
      (∃ i ∈ active, i ≠ root ∧ m.pathAt i = q) ∨ (q = .root ∧ .root ∈ c.leaves) := by
  rw [Configuration.mem_activePaths, tree.exists_leaf_iff h]
  simp only [tree.mem_activeOf h]
  constructor
  · rintro ⟨j, hj, hleaf, hq⟩
    rw [tree.mem_ancestors_pathAt hj] at hq
    rcases hq with rfl | ⟨i, hij, hne, rfl⟩
    · by_cases hr : j = root
      · subst hr
        rw [tree.pathAt_root] at hleaf ⊢
        exact .inr ⟨rfl, hleaf⟩
      · exact .inl ⟨j, ⟨j, hj, hleaf, .inl rfl⟩, hr, rfl⟩
    · exact .inl ⟨i, ⟨j, hj, hleaf, .inr hij⟩, hne, rfl⟩
  · rintro (⟨i, ⟨j, hj, hleaf, hji⟩, hne, rfl⟩ | ⟨rfl, hleaf⟩)
    · refine ⟨j, hj, hleaf, ?_⟩
      rw [tree.mem_ancestors_pathAt hj]
      exact hji.imp (congrArg m.pathAt ·.symm) fun hij => ⟨i, hij, hne, rfl⟩
    · refine ⟨root, tree.root_mem_ids, ?_, .inl tree.pathAt_root.symm⟩
      rwa [tree.pathAt_root]

theorem text_tells {c : Configuration} {active : List NodeId} (h : m.activeOf c = .ok active) :
    m.TextTells c active where
  answers q := by
    rw [tree.isActive_iff h]
    exact exists_congr fun i => and_congr_right fun hi =>
      (exists_path_iff (tree.mem_ids_of_activeOf h hi)).symm
  ordered := c.activePaths_bytes
  lists q := by
    rw [tree.mem_activePaths h]
    apply or_congr_left
    refine exists_congr fun i => and_congr_right fun hi => and_congr_right fun _ => ?_
    exact (exists_path_iff (tree.mem_ids_of_activeOf h hi)).symm
  guards view i n hview hn := by
    have hstate : view.inState n.path = active.contains i := by
      rw [GuardView.inState, hview, Bool.eq_iff_iff, tree.isActive_iff h, List.contains_iff_mem]
      constructor
      · rintro ⟨j, hj, hpath⟩
        obtain rfl := tree.pathAt_inj (tree.mem_ids_of_activeOf h hj) (mem_ids.mpr ⟨n, hn⟩)
          (hpath.trans (pathAt_eq hn).symm)
        exact hj
      · intro hi
        exact ⟨i, hi, pathAt_eq hn⟩
    constructor
    · rw [Guard.check_inState, hstate]
    · intro g
      rw [Guard.check_within, hstate]

end IsTree

/-- Ancestry of paths is ancestry of nodes, and what a consistent configuration tells by text is
told of its active nodes. -/
theorem text_tells_tree {spec : ChartSpec C E} (built : spec.build = .ok m) :
    (∀ a b n n', m.node? a = some n → m.node? b = some n' →
      (n.path.isAncestorOf n'.path = true ↔ m.isAncestor a b = true)) ∧
    ∀ c, m.isConsistent c = true → ∃ active, m.activeOf c = .ok active ∧ m.TextTells c active := by
  have tree := ChartSpec.isTree_of_build built
  constructor
  · intro a b n n' hn hn'
    rw [← pathAt_eq hn', tree.isAncestorOf_pathAt (mem_ids.mpr ⟨n', hn'⟩), isAncestor_iff]
    constructor
    · rintro ⟨a', ha', hpath⟩
      obtain rfl := tree.pathAt_inj (tree.ancestor_mem_ids ha') (mem_ids.mpr ⟨n, hn⟩)
        (hpath.trans (pathAt_eq hn).symm)
      exact ha'
    · intro ha
      exact ⟨a, ha, pathAt_eq hn⟩
  · intro c hc
    unfold isConsistent at hc
    split at hc
    · rename_i active hactive
      exact ⟨active, hactive, tree.text_tells hactive⟩
    · cases hc

end Chart

theorem relay_text_tells : ∃ active, relay.chart.activeOf workLeaves = .ok active ∧
    relay.chart.TextTells workLeaves active :=
  (Chart.text_tells_tree relay_built).2 workLeaves (by decide +kernel)

/-- The relay at work, with the root listed beside the leaves. -/
def rootedLeaves : Configuration :=
  .ofLeaves [⟨""⟩, ⟨"work.left.idle"⟩, ⟨"work.right.waiting"⟩]

theorem rooted_lists_root : relay.chart.isConsistent rootedLeaves = true ∧
    ∃ p ∈ rootedLeaves.activePaths,
      ¬∃ i ≠ Chart.root, ∃ n, relay.chart.node? i = some n ∧ n.path = p := by
  refine ⟨by decide +kernel, .root, by decide +kernel, ?_⟩
  rintro ⟨i, hne, n, hn, hpath⟩
  have tree := ChartSpec.isTree_of_build relay_built
  obtain ⟨r, hr, -, hroot, -⟩ := tree.rooted
  exact hne (tree.path_inj hn hr (hpath.trans hroot.symm))

end Statechart
