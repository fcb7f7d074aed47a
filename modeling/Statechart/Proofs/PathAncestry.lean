import Mathlib.Order.Defs.Unbundled
import Mathlib.Order.Preorder.Chain
import Statechart.Proofs.ByteOrder

/-! Ancestry of paths, whatever their text: keys may be empty, and a path need not be that of a
state. The way up from parent to parent and the test of what a text begins with come to the same. -/
namespace Statechart
namespace Path

theorem isRoot_iff {p : Path} : p.isRoot = true ↔ p = .root := by
  cases p
  simp [isRoot, root]

theorem chars_mk (text : String) : (Path.mk text).chars = text.toList := rfl

theorem chars_root : Path.root.chars = [] := by
  simp [root, chars]

theorem child_root (key : String) : Path.root.child key = ⟨key⟩ := rfl

theorem chars_child {p : Path} (hp : p ≠ .root) (key : String) :
    (p.child key).chars = p.chars ++ '.' :: key.toList := by
  rw [child, if_neg (mt isRoot_iff.mp hp)]
  simp [chars]

theorem chars_inj {p q : Path} : p.chars = q.chars ↔ p = q := by
  cases p
  cases q
  simp [chars, String.toList_inj]

theorem chars_ne_nil {p : Path} (hp : p ≠ .root) : p.chars ≠ [] := by
  rw [← chars_root]
  exact mt chars_inj.mp hp

theorem ne_dot_of_mem_reverse {cs : List Char} (h : '.' ∉ cs) :
    ∀ c ∈ cs.reverse, decide (c ≠ '.') = true := by
  intro c hc
  simp only [decide_eq_true_eq]
  rintro rfl
  exact h (List.mem_reverse.mp hc)

theorem cut_key {cs : List Char} (h : '.' ∉ cs) :
    beforeLastDot cs = [] ∧ afterLastDot cs = cs := by
  have hkey := ne_dot_of_mem_reverse h
  constructor
  · rw [beforeLastDot, ← List.append_nil cs.reverse, List.dropWhile_append_of_pos hkey]
    rfl
  · rw [afterLastDot, ← List.append_nil cs.reverse, List.takeWhile_append_of_pos hkey]
    simp

theorem cut_append (bs : List Char) {cs : List Char} (h : '.' ∉ cs) :
    beforeLastDot (bs ++ '.' :: cs) = bs ∧ afterLastDot (bs ++ '.' :: cs) = cs := by
  have hkey := ne_dot_of_mem_reverse h
  constructor
  · rw [beforeLastDot, List.reverse_append, List.reverse_cons, List.append_assoc,
      List.dropWhile_append_of_pos hkey]
    simp
  · rw [afterLastDot, List.reverse_append, List.reverse_cons, List.append_assoc,
      List.takeWhile_append_of_pos hkey]
    simp

theorem cut_cases (cs : List Char) :
    ('.' ∉ cs ∧ beforeLastDot cs = [] ∧ afterLastDot cs = cs) ∨
      (cs = beforeLastDot cs ++ '.' :: afterLastDot cs ∧ '.' ∉ afterLastDot cs) := by
  by_cases h : '.' ∈ cs
  · obtain ⟨ks, bs, hsplit, hks⟩ := List.eq_append_cons_of_mem (List.mem_reverse.mpr h)
    obtain rfl : cs = bs.reverse ++ '.' :: ks.reverse := by
      rw [← List.reverse_reverse cs, hsplit]
      simp
    have hkey : '.' ∉ ks.reverse := mt List.mem_reverse.mp hks
    obtain ⟨hbefore, hafter⟩ := cut_append bs.reverse hkey
    rw [hbefore, hafter]
    exact .inr ⟨rfl, hkey⟩
  · exact .inl ⟨h, cut_key h⟩

theorem chars_key (p : Path) : p.key.toList = afterLastDot p.chars := by
  simp [key]

theorem parent_eq_none_iff {p : Path} : p.parent = none ↔ p = .root := by
  simp [parent, isRoot_iff]

theorem parent_eq_some_iff {p q : Path} :
    p.parent = some q ↔ p ≠ .root ∧ q.chars = beforeLastDot p.chars := by
  by_cases hp : p = .root
  · simp [parent, isRoot_iff, hp]
  · rw [parent, if_neg (mt isRoot_iff.mp hp), Option.some_inj, ← chars_inj, chars,
      String.toList_ofList]
    simp [hp, eq_comm]

theorem cut_parent {p q : Path} (h : p.parent = some q) :
    ('.' ∉ p.chars ∧ q = .root ∧ p.key = p.text) ∨
      (p.chars = q.chars ++ '.' :: p.key.toList ∧ '.' ∉ p.key.toList) := by
  obtain ⟨-, hq⟩ := parent_eq_some_iff.mp h
  rw [chars_key, hq]
  rcases cut_cases p.chars with ⟨hdot, hbefore, hafter⟩ | hcut
  · refine .inl ⟨hdot, chars_inj.mp ?_, String.toList_inj.mp ?_⟩
    · rw [hq, hbefore, chars_root]
    · rw [chars_key, hafter, chars]
  · exact .inr hcut

theorem parent_child (p : Path) {key : String} (hne : key ≠ "") (hdot : '.' ∉ key.toList) :
    (p.child key).parent = some p := by
  rw [parent_eq_some_iff]
  by_cases hp : p = .root
  · subst hp
    rw [child_root, chars_mk key, (cut_key hdot).1, chars_root]
    exact ⟨fun h => hne (congrArg Path.text h), rfl⟩
  · rw [chars_child hp, (cut_append p.chars hdot).1]
    refine ⟨fun h => ?_, rfl⟩
    simpa [chars_child hp, chars_root] using congrArg chars h

theorem key_child (p : Path) {key : String} (hdot : '.' ∉ key.toList) : (p.child key).key = key := by
  rw [← String.toList_inj, chars_key]
  by_cases hp : p = .root
  · subst hp
    rw [child_root, chars_mk key, (cut_key hdot).2]
  · rw [chars_child hp, (cut_append p.chars hdot).2]

theorem down_induction {P : Path → Prop} (top : P .root)
    (below : ∀ p q : Path, p.parent = some q → P q → P p) (p : Path) : P p := by
  cases h : p.parent with
  | none =>
    rw [parent_eq_none_iff.mp h]
    exact top
  | some q => exact below p q h (down_induction top below q)
termination_by p.chars.length
decreasing_by exact parent_length_lt h

/-- The path so many steps up, if there are so many. -/
def up : Path → Nat → Option Path
  | p, 0 => some p
  | p, n + 1 => p.parent.bind fun q => q.up n

theorem up_succ {p q : Path} (h : p.parent = some q) (n : Nat) : p.up (n + 1) = q.up n := by
  simp [up, h]

theorem ancestors_root : Path.root.ancestors = [] := by
  rw [ancestors]
  rfl

theorem ancestors_eq {p q : Path} (h : p.parent = some q) :
    p.ancestors = if q.isRoot then [] else q.ancestors ++ [q] := by
  rw [ancestors]
  split
  · rename_i hnone
    simp [h] at hnone
  · rename_i r hr
    rw [Option.some.inj (h.symm.trans hr)]

theorem ancestors_below_root {p : Path} (h : p.parent = some .root) : p.ancestors = [] := by
  rw [ancestors_eq h, if_pos (isRoot_iff.mpr rfl)]

theorem ancestors_below {p q : Path} (h : p.parent = some q) (hq : q ≠ .root) :
    p.ancestors = q.ancestors ++ [q] := by
  rw [ancestors_eq h, if_neg (mt isRoot_iff.mp hq)]

theorem up_length_ancestors {p : Path} (hp : p ≠ .root) :
    p.up (p.ancestors.length + 1) = some .root := by
  induction p using down_induction with
  | top => exact absurd rfl hp
  | below p q h ih =>
    by_cases hq : q = .root
    · subst hq
      rw [ancestors_below_root h, up_succ h]
      rfl
    · rw [ancestors_below h hq, List.length_append, List.length_singleton, up_succ h]
      exact ih hq

theorem getElem?_reverse_ancestors (p : Path) {n : Nat} (hn : n < p.ancestors.length) :
    p.ancestors.reverse[n]? = p.up (n + 1) := by
  induction p using down_induction generalizing n with
  | top => simp [ancestors_root] at hn
  | below p q h ih =>
    by_cases hq : q = .root
    · subst hq
      simp [ancestors_below_root h] at hn
    · rw [ancestors_below h hq] at hn ⊢
      rw [List.reverse_concat, up_succ h]
      cases n with
      | zero => rfl
      | succ n =>
        rw [List.getElem?_cons_succ]
        exact ih (by simpa using hn)

theorem isAncestorOf_iff {p q : Path} : p.isAncestorOf q = true ↔
    (p = .root ∧ q ≠ .root) ∨ (p ≠ .root ∧ p.chars ++ ['.'] <+: q.chars) := by
  by_cases hp : p = .root
  · subst hp
    simp [isAncestorOf, isRoot_iff.mpr, ← isRoot_iff (p := q)]
  · simp [isAncestorOf, mt isRoot_iff.mp hp, hp]

theorem root_isAncestorOf {q : Path} : Path.root.isAncestorOf q = true ↔ q ≠ .root := by
  simp [isAncestorOf_iff]

theorem isAncestorOf_root (q : Path) : ¬q.isAncestorOf .root = true := by
  rw [isAncestorOf_iff]
  rintro (⟨-, h⟩ | ⟨-, h⟩)
  · exact h rfl
  · simp [chars_root] at h

theorem dot_prefix_append_iff {bs cs key : List Char} (hkey : '.' ∉ key) :
    bs ++ ['.'] <+: cs ++ '.' :: key ↔ bs = cs ∨ bs ++ ['.'] <+: cs := by
  constructor
  · rintro ⟨rest, hrest⟩
    rcases List.append_eq_append_iff.mp hrest with ⟨ds, hds, -⟩ | ⟨ds, hds, hkeys⟩
    · exact .inr ⟨ds, hds.symm⟩
    · rcases List.eq_nil_or_concat ds with rfl | ⟨es, e, rfl⟩
      · exact .inr ⟨[], by simpa using hds⟩
      · rw [List.concat_eq_append, ← List.append_assoc] at hds
        obtain ⟨hbs, he⟩ := List.append_inj' hds rfl
        obtain rfl : '.' = e := by simpa using he
        -- the dot after the first text is the one before the key, or it would be in the key
        cases es with
        | nil => exact .inl (by simpa using hbs)
        | cons f fs =>
          obtain ⟨-, hfs⟩ : '.' = f ∧ key = fs ++ '.' :: rest := by simpa using hkeys
          exact absurd (hfs ▸ by simp) hkey
  · rintro (rfl | h)
    · exact ⟨key, by simp⟩
    · exact h.trans (List.prefix_append cs _)

/-- One step of the way up tells what the text tells: above a path are its parent and all above
that. -/
theorem isAncestorOf_parent {p q : Path} (h : p.parent = some q) (r : Path) :
    r.isAncestorOf p = true ↔ r = q ∨ r.isAncestorOf q = true := by
  have hp := (parent_eq_some_iff.mp h).1
  by_cases hr : r = .root
  · subst hr
    rw [root_isAncestorOf, root_isAncestorOf, eq_comm]
    exact iff_of_true hp (Classical.em _)
  · rcases cut_parent h with ⟨hdot, rfl, -⟩ | ⟨hcut, hdot⟩
    · have hno : ¬r.chars ++ ['.'] <+: p.chars := by
        rintro ⟨rest, hrest⟩
        exact hdot (hrest ▸ by simp)
      rw [isAncestorOf_iff]
      simp [hr, hno, isAncestorOf_root]
    · rw [isAncestorOf_iff, isAncestorOf_iff, hcut, dot_prefix_append_iff hdot, chars_inj]
      simp [hr]

theorem mem_ancestors {p q : Path} :
    q ∈ p.ancestors ↔ q ≠ .root ∧ q.isAncestorOf p = true := by
  induction p using down_induction with
  | top => simp [ancestors_root, isAncestorOf_root]
  | below p r h ih =>
    rw [isAncestorOf_parent h]
    by_cases hr : r = .root
    · subst hr
      simp [ancestors_below_root h, isAncestorOf_root]
    · rw [ancestors_below h hr, List.mem_append, List.mem_singleton, ih]
      constructor
      · rintro (⟨hq, habove⟩ | rfl)
        · exact ⟨hq, .inr habove⟩
        · exact ⟨hr, .inl rfl⟩
      · rintro ⟨hq, rfl | habove⟩
        · exact .inr rfl
        · exact .inl ⟨hq, habove⟩

example : (Path.mk "..é.ü").ancestors = [⟨"."⟩, ⟨"..é"⟩] := by decide +kernel

theorem bytes_ne_nil {p : Path} (hp : p ≠ .root) : p.bytes ≠ [] := by
  obtain ⟨c, cs, hcs⟩ := List.exists_cons_of_ne_nil (chars_ne_nil hp)
  rw [bytes_eq, hcs, List.flatMap_cons]
  exact fun h => utf8_ne_nil c (List.append_eq_nil_iff.mp h).1

theorem concat_prefix_iff {α : Type} {xs ys : List α} {x : α} :
    xs ++ [x] <+: ys ↔ xs <+: ys ∧ ys[xs.length]? = some x := by
  constructor
  · rintro ⟨rest, rfl⟩
    rw [List.append_assoc]
    exact ⟨List.prefix_append _ _, by simp⟩
  · rintro ⟨⟨rest, rfl⟩, hnext⟩
    cases rest with
    | nil => simp at hnext
    | cons y rest =>
      obtain rfl : y = x := by simpa using hnext
      exact ⟨rest, by simp⟩

/-- Below a path that is not the root are those whose bytes begin with its own and go on with a
dot. -/
theorem isAncestorOf_iff_bytes {p q : Path} : p.isAncestorOf q = true ↔
    (p = .root ∧ q ≠ .root) ∨
      (p ≠ .root ∧ p.bytes <+: q.bytes ∧ q.bytes[p.bytes.length]? = some dot) := by
  rw [isAncestorOf_iff, dot_prefix_iff_bytes, concat_prefix_iff]

theorem length_lt_of_isAncestorOf {p q : Path} (h : p.isAncestorOf q = true) :
    p.bytes.length < q.bytes.length := by
  rcases isAncestorOf_iff_bytes.mp h with ⟨rfl, hq⟩ | ⟨-, -, hnext⟩
  · rw [bytes_eq, chars_root, List.flatMap_nil]
    exact List.length_pos_iff.mpr (bytes_ne_nil hq)
  · exact (List.getElem?_eq_some_iff.mp hnext).1

/-- The last byte that is a dot is the last dot, so the cut there goes through no character. -/
theorem cut_parent_bytes {p q : Path} (h : p.parent = some q) :
    (dot ∉ p.bytes ∧ q = .root ∧ p.key = p.text) ∨
      (p.bytes = q.bytes ++ dot :: (Path.mk p.key).bytes ∧ dot ∉ (Path.mk p.key).bytes) := by
  rw [dot_mem_bytes_iff, dot_mem_bytes_iff]
  refine (cut_parent h).imp_right fun ⟨hcut, hdot⟩ => ⟨?_, hdot⟩
  rw [bytes_eq, hcut, List.flatMap_append, List.flatMap_cons, utf8_dot, ← bytes_eq, ← chars_mk p.key,
    ← bytes_eq, List.singleton_append]

theorem isAncestorOf_trans {p q r : Path} (hpq : p.isAncestorOf q = true)
    (hqr : q.isAncestorOf r = true) : p.isAncestorOf r = true := by
  induction r using down_induction with
  | top => exact absurd hqr (isAncestorOf_root q)
  | below r s h ih =>
    rw [isAncestorOf_parent h] at hqr ⊢
    rcases hqr with rfl | hqs
    · exact .inr hpq
    · exact .inr (ih hqs)

instance : IsStrictOrder Path fun p q : Path => p.isAncestorOf q = true where
  irrefl _ h := Nat.lt_irrefl _ (length_lt_of_isAncestorOf h)
  trans _ _ _ := isAncestorOf_trans

theorem isChain_above (r : Path) :
    IsChain (fun p q : Path => p.isAncestorOf q = true) {p | p.isAncestorOf r = true} := by
  induction r using down_induction with
  | top => exact fun p hp => absurd hp (isAncestorOf_root p)
  | below r s h ih =>
    intro p hp q hq hne
    rw [Set.mem_ofPred_eq, isAncestorOf_parent h] at hp hq
    rcases hp with rfl | hp
    · rcases hq with rfl | hq
      · exact absurd rfl hne
      · exact .inr hq
    · rcases hq with rfl | hq
      · exact .inl hp
      · exact ih hp hq hne

theorem pairwise_ancestors (p : Path) :
    p.ancestors.Pairwise fun q r => q.isAncestorOf r = true := by
  induction p using down_induction with
  | top => simp [ancestors_root]
  | below p q h ih =>
    by_cases hq : q = .root
    · subst hq
      simp [ancestors_below_root h]
    · rw [ancestors_below h hq, List.pairwise_append]
      refine ⟨ih, List.pairwise_singleton _ _, fun r hr s hs => ?_⟩
      rw [List.mem_singleton.mp hs]
      exact (mem_ancestors.mp hr).2

/-- What stands above a path: a step up cuts it at its last dot, the steps end at the root, and
before that they meet the paths with whose bytes and a dot its own begin. -/
structure Traced (p : Path) : Prop where
  cut : ∀ q, p.parent = some q →
    (dot ∉ p.bytes ∧ q = .root ∧ p.key = p.text) ∨
      (p.bytes = q.bytes ++ dot :: (Path.mk p.key).bytes ∧ dot ∉ (Path.mk p.key).bytes)
  climbed : ∀ n < p.ancestors.length, p.ancestors.reverse[n]? = p.up (n + 1)
  ends : p ≠ .root → p.up (p.ancestors.length + 1) = some .root
  begins : ∀ q : Path, q.isAncestorOf p = true ↔
    (q = .root ∧ p ≠ .root) ∨
      (q ≠ .root ∧ q.bytes <+: p.bytes ∧ p.bytes[q.bytes.length]? = some dot)
  lists : ∀ q, q ∈ p.ancestors ↔ q ≠ .root ∧ q.isAncestorOf p = true
  growing : p.ancestors.Pairwise fun q r => q.bytes.length < r.bytes.length

/-- Whatever the text of a path, the way up and the text tell the same paths above it. They order
all paths, those above any one in a chain, and a child comes right below. -/
theorem ancestry_of_text :
    (∀ p : Path, p.Traced) ∧
    IsStrictOrder Path (fun p q : Path => p.isAncestorOf q = true) ∧
    (∀ r : Path, IsChain (fun p q : Path => p.isAncestorOf q = true)
      {p | p.isAncestorOf r = true}) ∧
    ∀ (p : Path) (key : String), key ≠ "" → '.' ∉ key.toList →
      (p.child key).parent = some p ∧ (p.child key).key = key ∧
        (p.child key).ancestors = if p.isRoot then [] else p.ancestors ++ [p] := by
  refine ⟨fun p => ?_, inferInstance, isChain_above, fun p key hne hdot => ?_⟩
  · exact {
      cut := fun q => cut_parent_bytes
      climbed := fun n => p.getElem?_reverse_ancestors
      ends := up_length_ancestors
      begins := fun q => isAncestorOf_iff_bytes
      lists := fun q => mem_ancestors
      growing := p.pairwise_ancestors.imp length_lt_of_isAncestorOf }
  · have hparent := parent_child p hne hdot
    exact ⟨hparent, key_child p hdot, ancestors_eq hparent⟩

theorem dotted_child : "ü" ≠ "" ∧ '.' ∉ "ü".toList ∧
    ((Path.mk "..é.").child "ü").parent = some ⟨"..é."⟩ ∧
    ((Path.mk "..é.").child "ü").key = "ü" ∧
    ((Path.mk "..é.").child "ü").ancestors = (Path.mk "..é.").ancestors ++ [⟨"..é."⟩] :=
  ⟨by decide, by decide, ancestry_of_text.2.2.2 ⟨"..é."⟩ "ü" (by decide) (by decide)⟩

end Path
end Statechart
