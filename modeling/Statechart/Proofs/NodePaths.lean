import Statechart.Proofs.PathAncestry
import Statechart.Proofs.Tree

/-! Paths of nodes. The keys of a path tell the nodes above, and the text tells the order in which a
configuration lists the leaves of sibling regions. -/
namespace Statechart

theorem Path.segments_root : Path.root.segments = [] := by
  simp [Path.segments, Path.root, Path.chars]

theorem Path.segments_child (p : Path) {key : String} (h : isValidKey key = true) :
    (p.child key).segments = p.segments ++ [key] := by
  obtain ⟨hkey, hdot, -⟩ := valid_of_isValidKey h
  have hne : key.toList ≠ [] := mt String.toList_eq_nil_iff.mp hkey
  have hself : (key.toList.splitOn '.').filter (· ≠ []) = [key.toList] := by
    rw [List.splitOn_eq_singleton hdot]
    simpa using hne
  unfold Path.child
  split
  · rename_i hroot
    rw [isRoot_iff.mp hroot, Path.segments_root]
    simp only [Path.segments, Path.chars, hself]
    simp
  · have hchars : (p.text ++ "." ++ key).toList = p.chars ++ '.' :: key.toList := by
      simp [Path.chars]
    simp only [Path.segments, Path.chars, hchars, List.splitOn_append_cons_self,
      List.filter_append, hself, List.map_append]
    simp

theorem append_lt_of_lt {x y z : List Char} (h : y < x) (hn : ¬y <+: x) : y ++ z < x := by
  induction y generalizing x with
  | nil => exact absurd (List.nil_prefix) hn
  | cons b y ih =>
    cases x with
    | nil => exact absurd h (List.not_lt_nil _)
    | cons a x =>
      rw [List.cons_append, List.cons_lt_cons_iff]
      rcases List.cons_lt_cons_iff.mp h with hlt | ⟨rfl, hlt⟩
      · exact .inl hlt
      · exact .inr ⟨rfl, ih hlt fun hp => hn (List.cons_prefix_cons.mpr ⟨rfl, hp⟩)⟩

theorem lt_of_append_lt {x y z : List Char} (h : y ++ z < x) : y < x := by
  induction y generalizing x with
  | nil =>
    cases x with
    | nil => exact absurd h (List.not_lt_nil _)
    | cons a x => exact List.nil_lt_cons a x
  | cons b y ih =>
    cases x with
    | nil => exact absurd h (List.not_lt_nil _)
    | cons a x =>
      rw [List.cons_append, List.cons_lt_cons_iff] at h
      exact List.cons_lt_cons_iff.mpr (h.imp_right fun ⟨he, hlt⟩ => ⟨he, ih hlt⟩)

namespace Chart

variable {C E : Type} {m : Chart C E}

def pathAt (m : Chart C E) (i : NodeId) : Path := ((m.node? i).map (·.path)).getD .root

namespace IsTree

variable (tree : m.IsTree)
include tree

theorem pathAt_inj {i j : NodeId} (hi : i ∈ m.ids) (hj : j ∈ m.ids)
    (h : m.pathAt i = m.pathAt j) : i = j := by
  obtain ⟨n, hn⟩ := mem_ids.mp hi
  obtain ⟨n', hn'⟩ := mem_ids.mp hj
  exact tree.path_inj hn hn' (by simpa [pathAt, hn, hn'] using h)

theorem pathAt_root : m.pathAt root = .root := by
  obtain ⟨n, hn, -, hpath, -⟩ := tree.rooted
  simp [pathAt, hn, hpath]

theorem pathAt_ne_root {i : NodeId} (hi : i ∈ m.ids) (hne : i ≠ root) : m.pathAt i ≠ .root :=
  fun h => hne (tree.pathAt_inj hi tree.root_mem_ids (h.trans tree.pathAt_root.symm))

theorem pathAt_child {p c : NodeId} (h : c ∈ m.children p) :
    ∃ key, isValidKey key = true ∧ m.pathAt c = (m.pathAt p).child key := by
  obtain ⟨n, hn⟩ := mem_ids.mp (mem_ids_of_children h)
  obtain ⟨n', hn'⟩ := mem_ids.mp (tree.child_mem_ids h)
  obtain ⟨hpath, hkey⟩ := tree.path hn hn' (by simpa [children, hn] using h)
  exact ⟨n'.key, hkey, by simpa [pathAt, hn, hn'] using hpath⟩

theorem parent_pathAt {p c : NodeId} (h : c ∈ m.children p) :
    (m.pathAt c).parent = some (m.pathAt p) := by
  obtain ⟨key, hkey, hpath⟩ := tree.pathAt_child h
  obtain ⟨hne, hdot, -⟩ := valid_of_isValidKey hkey
  rw [hpath, Path.parent_child _ hne hdot]

theorem segments_child {p c : NodeId} (h : c ∈ m.children p) :
    ∃ key, (m.pathAt c).segments = (m.pathAt p).segments ++ [key] ∧
      m.pathAt c = (m.pathAt p).child key := by
  obtain ⟨key, hkey, hpath⟩ := tree.pathAt_child h
  exact ⟨key, by rw [hpath, Path.segments_child _ hkey], hpath⟩

theorem segments_inj {i j : NodeId} (hi : i ∈ m.ids) (hj : j ∈ m.ids)
    (h : (m.pathAt i).segments = (m.pathAt j).segments) : i = j := by
  have hroot : ∀ {k}, k ∈ m.ids → (m.pathAt k).segments = [] → k = root := by
    intro k hk hnil
    by_contra hne
    obtain ⟨p, hp⟩ := tree.exists_parent hk hne
    obtain ⟨key, hkey, -⟩ := tree.segments_child hp
    simp [hkey] at hnil
  induction hi using tree.down_induction generalizing j with
  | top =>
    rw [tree.pathAt_root, Path.segments_root] at h
    exact (hroot hj h.symm).symm
  | child p c hc ih =>
    obtain ⟨key, hkey, hpath⟩ := tree.segments_child hc
    have hne : j ≠ root := by
      rintro rfl
      simp [tree.pathAt_root, Path.segments_root, hkey] at h
    obtain ⟨q, hq⟩ := tree.exists_parent hj hne
    obtain ⟨key', hkey', hpath'⟩ := tree.segments_child hq
    rw [hkey, hkey'] at h
    obtain ⟨habove, hlast⟩ := List.append_inj' h rfl
    obtain rfl := ih (mem_ids_of_children hq) habove
    obtain rfl : key = key' := by simpa using hlast
    exact tree.pathAt_inj (tree.child_mem_ids hc) hj (hpath.trans hpath'.symm)

theorem segments_prefix_iff {i j : NodeId} (hi : i ∈ m.ids) (hj : j ∈ m.ids) :
    (m.pathAt i).segments <+: (m.pathAt j).segments ↔ i = j ∨ i ∈ m.ancestors j := by
  induction hj using tree.down_induction with
  | top =>
    rw [tree.pathAt_root, Path.segments_root, List.prefix_nil, tree.ancestors_root]
    constructor
    · intro h
      left
      refine tree.segments_inj hi tree.root_mem_ids ?_
      rw [h, tree.pathAt_root, Path.segments_root]
    · rintro (rfl | h)
      · rw [tree.pathAt_root, Path.segments_root]
      · simp at h
  | child p c hc ih =>
    obtain ⟨key, hkey, -⟩ := tree.segments_child hc
    rw [hkey, List.prefix_concat_iff, ih, ← hkey, tree.mem_ancestors_child hc]
    exact or_congr_left ⟨tree.segments_inj hi (tree.child_mem_ids hc), fun h => h ▸ rfl⟩

theorem text_below {b i : NodeId} (h : b ∈ m.ancestors i) (hb : b ≠ root) :
    ∃ rest, (m.pathAt i).text.toList = ((m.pathAt b).text ++ ".").toList ++ rest := by
  have step : ∀ {p c}, c ∈ m.children p → p ≠ root →
      ∃ rest, (m.pathAt c).text.toList = ((m.pathAt p).text ++ ".").toList ++ rest := by
    intro p c hc hne
    obtain ⟨key, -, hpath⟩ := tree.pathAt_child hc
    have hroot := mt Path.isRoot_iff.mp (tree.pathAt_ne_root (mem_ids_of_children hc) hne)
    refine ⟨key.toList, ?_⟩
    rw [hpath, Path.child, if_neg hroot]
    simp
  induction h using tree.below_induction with
  | child c hc => exact step hc hb
  | deeper p c hc h ih =>
    obtain ⟨rest, hrest⟩ := ih
    obtain ⟨rest', hrest'⟩ := step hc (tree.ne_root_of_mem_ancestors h)
    refine ⟨rest ++ '.' :: rest', ?_⟩
    rw [hrest', String.toList_append, hrest]
    simp

theorem not_prefix_sibling {p a b : NodeId} (ha : a ∈ m.children p)
    (hb : b ∈ m.children p) :
    ¬((m.pathAt b).text ++ ".").toList <+: (m.pathAt a).text.toList := by
  obtain ⟨k, hk, hpa⟩ := tree.pathAt_child ha
  obtain ⟨l, hl, hpb⟩ := tree.pathAt_child hb
  obtain ⟨-, hdot, -⟩ := valid_of_isValidKey hk
  have hkeys : ¬(l ++ ".").toList <+: k.toList := by
    rintro ⟨rest, hrest⟩
    exact hdot (hrest ▸ by simp)
  rw [hpa, hpb, Path.child, Path.child]
  split
  · exact hkeys
  · simp only [String.toList_append, List.append_assoc, List.prefix_append_right_inj]
    simpa using hkeys

/-- What lies in a region comes before a sibling of the region just when the region with a dot after
it does. -/
theorem lt_sibling_iff {p a b i : NodeId} (ha : a ∈ m.children p) (hb : b ∈ m.children p)
    (hi : b ∈ m.ancestors i) :
    m.pathAt i < m.pathAt a ↔ (m.pathAt b).text ++ "." < (m.pathAt a).text := by
  obtain ⟨rest, hrest⟩ := tree.text_below hi (tree.child_ne_root hb)
  change (m.pathAt i).text < (m.pathAt a).text ↔ _
  rw [String.lt_iff_toList_lt, String.lt_iff_toList_lt, hrest]
  exact ⟨lt_of_append_lt, fun h => append_lt_of_lt h (tree.not_prefix_sibling ha hb)⟩

end IsTree
end Chart
end Statechart
