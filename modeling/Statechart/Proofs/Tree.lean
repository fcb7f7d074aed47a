import Statechart.Chart.Activity
import Statechart.Spec.Build

/-! Charts whose nodes form one tree, numbered in document order. All that a step relies on when it
climbs from a node or looks up a path is a fact of such trees. -/
namespace Statechart.Chart

variable {C E : Type} {m : Chart C E}

structure IsTree (m : Chart C E) : Prop where
  id_eq : ∀ {i n}, m.node? i = some n → n.id = i
  rooted : ∃ n, m.node? root = some n ∧ n.ancestors = [] ∧ n.path = .root ∧ n.isCompound = true
  held : ∀ {i n}, m.node? i = some n →
    i = root ∨ ∃ p, n.ancestors = p :: m.ancestors p ∧ i ∈ m.children p
  holds : ∀ {p c}, c ∈ m.children p → c ∈ m.ids ∧ m.ancestors c = p :: m.ancestors p
  lt_child : ∀ {p c : Nat}, c ∈ m.children p → p < c
  ordered : ∀ p, (m.children p).Pairwise (· < ·)
  atomic : ∀ {i}, m.isAtomic i = true → m.children i = []
  compound : ∀ {i initial}, m.kind? i = some (.compound initial) → initial ∈ m.children i
  parallel : ∀ {i}, m.isParallel i = true → m.children i ≠ []
  path : ∀ {p c n n'}, m.node? p = some n → m.node? c = some n' → c ∈ n.children →
    n'.path = n.path.child n'.key ∧ isValidKey n'.key = true
  path_inj : ∀ {i j n n'}, m.node? i = some n → m.node? j = some n' → n.path = n'.path → i = j
  target : ∀ {i n}, m.node? i = some n →
    (∀ c ∈ n.on, c.2.target ∈ m.ids) ∧ ∀ d ∈ n.after, d.candidate.target ∈ m.ids

theorem mem_ids {i : NodeId} : i ∈ m.ids ↔ ∃ n, m.node? i = some n := by
  rw [ids, List.mem_range, node?]
  constructor
  · intro h
    exact ⟨m.nodes[i], Array.getElem?_eq_getElem h⟩
  · rintro ⟨n, hn⟩
    exact (Array.getElem?_eq_some_iff.mp hn).1

theorem mem_ids_of_children {p c : NodeId} (h : c ∈ m.children p) : p ∈ m.ids := by
  unfold children at h
  split at h
  · exact mem_ids.mpr ⟨_, by assumption⟩
  · simp at h

theorem mem_ids_of_ancestors {i a : NodeId} (h : a ∈ m.ancestors i) : i ∈ m.ids := by
  unfold ancestors at h
  split at h
  · exact mem_ids.mpr ⟨_, by assumption⟩
  · simp at h

@[simp] theorem isAncestor_iff {a i : NodeId} : m.isAncestor a i = true ↔ a ∈ m.ancestors i := by
  simp [isAncestor]

theorem isAtomic_iff {i : NodeId} : m.isAtomic i = true ↔ m.kind? i = some .atomic := by
  cases h : m.node? i <;> simp [isAtomic, kind?, h, Node.isAtomic]

theorem isParallel_iff {i : NodeId} : m.isParallel i = true ↔ m.kind? i = some .parallel := by
  cases h : m.node? i <;> simp [isParallel, kind?, h, Node.isParallel]

theorem isCompound_iff {i : NodeId} :
    m.isCompound i = true ↔ ∃ initial, m.kind? i = some (.compound initial) := by
  cases h : m.node? i with
  | none => simp [isCompound, kind?, h]
  | some n =>
    cases hk : n.kind <;>
      simp [isCompound, kind?, h, Node.isCompound, Node.isAtomic, Node.isParallel, hk]

theorem mem_ids_of_kind {i : NodeId} {k : Kind} (h : m.kind? i = some k) : i ∈ m.ids := by
  obtain ⟨n, hn, -⟩ := Option.map_eq_some_iff.mp h
  exact mem_ids.mpr ⟨n, hn⟩

theorem kind_cases {i : NodeId} (h : i ∈ m.ids) :
    m.isAtomic i = true ∨ m.isCompound i = true ∨ m.isParallel i = true := by
  obtain ⟨n, hn⟩ := mem_ids.mp h
  have hk : m.kind? i = some n.kind := by simp [kind?, hn]
  rw [isAtomic_iff, isCompound_iff, isParallel_iff, hk]
  cases n.kind <;> simp

namespace IsTree

variable (tree : m.IsTree)
include tree

theorem root_mem_ids : root ∈ m.ids := by
  obtain ⟨n, hn, -⟩ := tree.rooted
  exact mem_ids.mpr ⟨n, hn⟩

theorem ancestors_root : m.ancestors root = [] := by
  obtain ⟨n, hn, ha, -⟩ := tree.rooted
  simp [ancestors, hn, ha]

theorem ne_root_of_mem_ancestors {a i : NodeId} (h : a ∈ m.ancestors i) : i ≠ root := by
  rintro rfl
  simp [tree.ancestors_root] at h

theorem isCompound_root : m.isCompound root = true := by
  obtain ⟨n, hn, -, -, hc⟩ := tree.rooted
  simp [isCompound, hn, hc]

theorem exists_parent {i : NodeId} (h : i ∈ m.ids) (hne : i ≠ root) :
    ∃ p, i ∈ m.children p := by
  obtain ⟨n, hn⟩ := mem_ids.mp h
  rcases tree.held hn with rfl | ⟨p, -, hp⟩
  · exact absurd rfl hne
  · exact ⟨p, hp⟩

theorem ancestors_child {p c : NodeId} (h : c ∈ m.children p) :
    m.ancestors c = p :: m.ancestors p := (tree.holds h).2

theorem child_mem_ids {p c : NodeId} (h : c ∈ m.children p) : c ∈ m.ids := (tree.holds h).1

theorem mem_ancestors_child {p c a : NodeId} (h : c ∈ m.children p) :
    a ∈ m.ancestors c ↔ a = p ∨ a ∈ m.ancestors p := by
  rw [tree.ancestors_child h, List.mem_cons]

theorem parent_mem_ancestors {p c : NodeId} (h : c ∈ m.children p) : p ∈ m.ancestors c :=
  (tree.mem_ancestors_child h).mpr (.inl rfl)

theorem child_ne_root {p c : NodeId} (h : c ∈ m.children p) : c ≠ root :=
  tree.ne_root_of_mem_ancestors (tree.parent_mem_ancestors h)

theorem parent_child {p c : NodeId} (h : c ∈ m.children p) : m.parent c = some p := by
  rw [parent, tree.ancestors_child h, List.head?_cons]

theorem parent_eq_some_iff {p c : NodeId} : m.parent c = some p ↔ c ∈ m.children p := by
  constructor
  · intro h
    have hmem : p ∈ m.ancestors c := List.mem_of_mem_head? h
    have hne := tree.ne_root_of_mem_ancestors hmem
    obtain ⟨q, hq⟩ := tree.exists_parent (mem_ids_of_ancestors hmem) hne
    have hpq : q = p := by simpa [tree.parent_child hq] using h
    exact hpq ▸ hq
  · exact tree.parent_child

theorem down_induction {P : (i : NodeId) → i ∈ m.ids → Prop} (top : P root tree.root_mem_ids)
    (child : ∀ (p c : NodeId) (hc : c ∈ m.children p), P p (mem_ids_of_children hc) →
      P c (tree.child_mem_ids hc)) {i : NodeId} (h : i ∈ m.ids) : P i h := by
  induction i using Nat.strongRecOn with
  | ind i ih =>
    by_cases hr : i = root
    · subst hr
      exact top
    · obtain ⟨p, hp⟩ := tree.exists_parent h hr
      exact child p i hp (ih p (tree.lt_child hp) (mem_ids_of_children hp))

/-- What holds of the children of a node, and of each child of a node below it of which it holds,
holds of all nodes below the node. -/
theorem below_induction {a : NodeId} {P : (i : NodeId) → a ∈ m.ancestors i → Prop}
    (child : ∀ (c : NodeId) (hc : c ∈ m.children a), P c (tree.parent_mem_ancestors hc))
    (deeper : ∀ (p c : NodeId) (hc : c ∈ m.children p) (h : a ∈ m.ancestors p), P p h →
      P c ((tree.mem_ancestors_child hc).mpr (.inr h)))
    {i : NodeId} (h : a ∈ m.ancestors i) : P i h := by
  induction mem_ids_of_ancestors h using tree.down_induction with
  | top => exact absurd rfl (tree.ne_root_of_mem_ancestors h)
  | child p c hc ih =>
    rcases (tree.mem_ancestors_child hc).mp h with rfl | hp
    · exact child c hc
    · exact deeper p c hc hp (ih hp)

theorem up_induction {P : (i : NodeId) → i ∈ m.ids → Prop}
    (node : ∀ (i : NodeId) (hi : i ∈ m.ids),
      (∀ (c : NodeId) (hc : c ∈ m.children i), P c (tree.child_mem_ids hc)) → P i hi)
    {i : NodeId} (h : i ∈ m.ids) : P i h := by
  have main : ∀ (k i : Nat) (hi : i ∈ m.ids), m.nodes.size ≤ i + k → P i hi := by
    intro k
    induction k with
    | zero =>
      intro i hi hk
      have : i < m.nodes.size := List.mem_range.mp hi
      omega
    | succ k ih =>
      intro i hi hk
      refine node i hi fun c hc => ih c (tree.child_mem_ids hc) ?_
      have : i < c := tree.lt_child hc
      omega
  exact main m.nodes.size i h (Nat.le_add_left _ _)

/-- Above a node stand, one after another, what is below its ancestor, that ancestor, and what is
above it. -/
theorem ancestors_split {i a : NodeId} (h : a ∈ m.ancestors i) :
    ∃ l, m.ancestors i = l ++ a :: m.ancestors a := by
  induction h using tree.below_induction with
  | child c hc => exact ⟨[], tree.ancestors_child hc⟩
  | deeper p c hc _ ih =>
    obtain ⟨l, hl⟩ := ih
    exact ⟨p :: l, by rw [tree.ancestors_child hc, hl, List.cons_append]⟩

theorem ancestors_after {i a : NodeId} {before after : List NodeId}
    (h : i :: m.ancestors i = before ++ a :: after) : after = m.ancestors a := by
  induction before generalizing i with
  | nil =>
    obtain ⟨rfl, rfl⟩ := List.cons.inj h
    rfl
  | cons b before ih =>
    obtain ⟨-, hlist⟩ := List.cons.inj h
    have ha : a ∈ m.ancestors i := hlist ▸ List.mem_append_right _ List.mem_cons_self
    obtain ⟨p, hp⟩ :=
      tree.exists_parent (mem_ids_of_ancestors ha) (tree.ne_root_of_mem_ancestors ha)
    rw [tree.ancestors_child hp] at hlist
    exact ih hlist

theorem ancestors_trans {a b i : NodeId} (hab : a ∈ m.ancestors b) (hbi : b ∈ m.ancestors i) :
    a ∈ m.ancestors i := by
  obtain ⟨l, hl⟩ := tree.ancestors_split hbi
  simp [hl, hab]

theorem parent_above {p c i : NodeId} (hc : c ∈ m.children p) (h : i = c ∨ c ∈ m.ancestors i) :
    p ∈ m.ancestors i := by
  rcases h with rfl | h
  · exact tree.parent_mem_ancestors hc
  · exact tree.ancestors_trans (tree.parent_mem_ancestors hc) h

theorem lt_of_mem_ancestors {a i : Nat} (h : a ∈ m.ancestors i) : a < i := by
  induction h using tree.below_induction with
  | child c hc => exact tree.lt_child hc
  | deeper p c hc _ ih => exact Nat.lt_trans ih (tree.lt_child hc)

theorem not_mem_ancestors_self (i : NodeId) : i ∉ m.ancestors i :=
  fun h => Nat.lt_irrefl i (tree.lt_of_mem_ancestors h)

theorem not_mem_ancestors_of_mem {a i : NodeId} (h : a ∈ m.ancestors i) : i ∉ m.ancestors a :=
  fun h' => tree.not_mem_ancestors_self i (tree.ancestors_trans h' h)

theorem root_mem_ancestors {i : NodeId} (h : i ∈ m.ids) (hne : i ≠ root) :
    root ∈ m.ancestors i := by
  induction h using tree.down_induction with
  | top => exact absurd rfl hne
  | child p c hc ih =>
    rw [tree.mem_ancestors_child hc]
    by_cases hp : p = root
    · exact .inl hp.symm
    · exact .inr (ih hp)

/-- Below an ancestor of a node, one child leads down to the node. -/
theorem exists_child_above {a i : NodeId} (h : a ∈ m.ancestors i) :
    ∃ c ∈ m.children a, c = i ∨ c ∈ m.ancestors i := by
  induction h using tree.below_induction with
  | child c hc => exact ⟨c, hc, .inl rfl⟩
  | deeper p c hc _ ih =>
    obtain ⟨d, hd, hdp⟩ := ih
    exact ⟨d, hd, .inr ((tree.mem_ancestors_child hc).mpr hdp)⟩

theorem ancestors_comparable {a b i : NodeId} (ha : a ∈ m.ancestors i) (hb : b ∈ m.ancestors i) :
    a = b ∨ a ∈ m.ancestors b ∨ b ∈ m.ancestors a := by
  induction ha using tree.below_induction with
  | child c hc =>
    rcases (tree.mem_ancestors_child hc).mp hb with rfl | hb
    · exact .inl rfl
    · exact .inr (.inr hb)
  | deeper p c hc ha ih =>
    rcases (tree.mem_ancestors_child hc).mp hb with rfl | hb
    · exact .inr (.inl ha)
    · exact ih hb

theorem not_mem_ancestors_sibling {p c d : NodeId} (hc : c ∈ m.children p)
    (hd : d ∈ m.children p) : c ∉ m.ancestors d := by
  intro h
  rcases (tree.mem_ancestors_child hd).mp h with rfl | h
  · exact Nat.lt_irrefl _ (tree.lt_child hc)
  · exact Nat.lt_asymm (tree.lt_child hc) (tree.lt_of_mem_ancestors h)

theorem child_above_unique {p c d i : NodeId} (hc : c ∈ m.children p) (hd : d ∈ m.children p)
    (hci : c = i ∨ c ∈ m.ancestors i) (hdi : d = i ∨ d ∈ m.ancestors i) : c = d := by
  have hcd := tree.not_mem_ancestors_sibling hc hd
  have hdc := tree.not_mem_ancestors_sibling hd hc
  rcases hci with rfl | hci
  · rcases hdi with rfl | hdi
    · rfl
    · exact absurd hdi hdc
  · rcases hdi with rfl | hdi
    · exact absurd hci hcd
    · rcases tree.ancestors_comparable hci hdi with h | h | h
      · exact h
      · exact absurd h hcd
      · exact absurd h hdc

theorem nodup_children (p : NodeId) : (m.children p).Nodup :=
  (tree.ordered p).imp fun h => Nat.ne_of_lt h

end IsTree
end Statechart.Chart
