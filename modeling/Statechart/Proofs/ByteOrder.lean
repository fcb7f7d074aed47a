import Mathlib.Data.List.Infix
import Mathlib.Data.String.Basic
import Statechart.Path

/-! The order of paths is that of their bytes in UTF-8: a smaller character has smaller bytes, and
none has bytes with which those of another begin. So bytes that begin those of a path are those of
what it begins with, and the byte of the dot is a dot wherever it stands. -/
namespace Statechart

theorem utf8_cases (c : Char) :
    (c.toNat ≤ 127 ∧ String.utf8EncodeChar c = [.ofNat c.toNat]) ∨
      (127 < c.toNat ∧ c.toNat ≤ 2047 ∧ String.utf8EncodeChar c =
        [.ofNat (c.toNat / 64 + 192), .ofNat (c.toNat % 64 + 128)]) ∨
      (2047 < c.toNat ∧ c.toNat ≤ 65535 ∧ String.utf8EncodeChar c =
        [.ofNat (c.toNat / 64 / 64 + 224), .ofNat (c.toNat / 64 % 64 + 128),
          .ofNat (c.toNat % 64 + 128)]) ∨
      (65535 < c.toNat ∧ c.toNat ≤ 1114111 ∧ String.utf8EncodeChar c =
        [.ofNat (c.toNat / 64 / 64 / 64 + 240), .ofNat (c.toNat / 64 / 64 % 64 + 128),
          .ofNat (c.toNat / 64 % 64 + 128), .ofNat (c.toNat % 64 + 128)]) := by
  have hmax : c.toNat ≤ 1114111 := by
    rcases c.valid with h | h
    · exact Nat.le_of_lt (Nat.lt_trans h (by decide))
    · exact Nat.le_of_lt_succ h.2
  have hv : c.val.toNat = c.toNat := rfl
  unfold String.utf8EncodeChar
  dsimp only
  rw [hv]
  by_cases h₁ : c.toNat ≤ 127
  · exact .inl ⟨h₁, if_pos h₁⟩
  · by_cases h₂ : c.toNat ≤ 2047
    · have hlead : c.toNat / 64 % 32 = c.toNat / 64 := by omega
      refine .inr (.inl ⟨by omega, h₂, ?_⟩)
      rw [if_neg h₁, if_pos h₂, hlead]
    · by_cases h₃ : c.toNat ≤ 65535
      · have hlead : c.toNat / 4096 % 16 = c.toNat / 64 / 64 := by omega
        refine .inr (.inr (.inl ⟨by omega, h₃, ?_⟩))
        rw [if_neg h₁, if_neg h₂, if_pos h₃, hlead]
      · have hlead : c.toNat / 262144 % 8 = c.toNat / 64 / 64 / 64 := by omega
        have hnext : c.toNat / 4096 = c.toNat / 64 / 64 := by omega
        refine .inr (.inr (.inr ⟨by omega, hmax, ?_⟩))
        rw [if_neg h₁, if_neg h₂, if_neg h₃, hlead, hnext]

/-- The first byte in which two characters differ tells which is the smaller. -/
theorem utf8_append_lt {a b : Char} (h : a < b) (x y : List UInt8) :
    String.utf8EncodeChar a ++ x < String.utf8EncodeChar b ++ y := by
  have hlt : a.toNat < b.toNat := h
  rcases utf8_cases a with ⟨ha, ea⟩ | ⟨ha, ha', ea⟩ | ⟨ha, ha', ea⟩ | ⟨ha, ha', ea⟩ <;>
    rcases utf8_cases b with ⟨hb, eb⟩ | ⟨hb, hb', eb⟩ | ⟨hb, hb', eb⟩ | ⟨hb, hb', eb⟩ <;>
    rw [ea, eb] <;>
    simp only [List.cons_append, List.cons_lt_cons_iff, UInt8.lt_iff_toNat_lt, ← UInt8.toNat_inj,
      UInt8.toNat_ofNat'] <;>
    omega

theorem utf8_ne_nil (c : Char) : String.utf8EncodeChar c ≠ [] := by
  rcases utf8_cases c with ⟨-, h⟩ | ⟨-, -, h⟩ | ⟨-, -, h⟩ | ⟨-, -, h⟩ <;> simp [h]

theorem utf8_lt_of_lt {s t : List Char} (h : s < t) :
    s.flatMap String.utf8EncodeChar < t.flatMap String.utf8EncodeChar := by
  induction s generalizing t with
  | nil =>
    cases t with
    | nil => exact absurd h (List.not_lt_nil _)
    | cons b t =>
      rw [List.flatMap_cons, List.flatMap_nil]
      cases hb : String.utf8EncodeChar b with
      | nil => exact absurd hb (utf8_ne_nil b)
      | cons u us => exact List.nil_lt_cons _ _
  | cons a s ih =>
    cases t with
    | nil => exact absurd h (List.not_lt_nil _)
    | cons b t =>
      rw [List.flatMap_cons, List.flatMap_cons]
      rcases List.cons_lt_cons_iff.mp h with hlt | ⟨rfl, hlt⟩
      · exact utf8_append_lt hlt _ _
      · exact List.Lex.append_left _ (ih hlt) _

theorem utf8_append_inj {a b : Char} {x y : List UInt8}
    (h : String.utf8EncodeChar a ++ x = String.utf8EncodeChar b ++ y) : a = b ∧ x = y := by
  have hab : a = b := by
    rcases lt_trichotomy a b with hlt | heq | hgt
    · exact absurd (h ▸ utf8_append_lt hlt x y) (List.lt_irrefl _)
    · exact heq
    · exact absurd (h ▸ utf8_append_lt hgt y x) (List.lt_irrefl _)
  subst hab
  exact ⟨rfl, List.append_cancel_left h⟩

theorem utf8_prefix_iff {s t : List Char} :
    s.flatMap String.utf8EncodeChar <+: t.flatMap String.utf8EncodeChar ↔ s <+: t := by
  constructor
  · intro h
    induction s generalizing t with
    | nil => exact List.nil_prefix
    | cons a s ih =>
      obtain ⟨rest, hrest⟩ := h
      rw [List.flatMap_cons, List.append_assoc] at hrest
      cases t with
      | nil => exact absurd (List.append_eq_nil_iff.mp hrest).1 (utf8_ne_nil a)
      | cons b t =>
        obtain ⟨rfl, htail⟩ := utf8_append_inj hrest
        exact List.cons_prefix_cons.mpr ⟨rfl, ih ⟨rest, htail⟩⟩
  · rintro ⟨rest, rfl⟩
    rw [List.flatMap_append]
    exact List.prefix_append _ _

namespace Path

def dot : UInt8 := 46

theorem utf8_dot : String.utf8EncodeChar '.' = [dot] := by decide

/-- The bytes of larger characters are all larger than that of the dot. -/
theorem dot_mem_utf8_iff {c : Char} : dot ∈ String.utf8EncodeChar c ↔ c = '.' := by
  have hc : c = '.' ↔ c.toNat = 46 := by
    rw [← Char.toNat_inj]
    rfl
  rw [hc, dot]
  rcases utf8_cases c with ⟨h, e⟩ | ⟨h, h', e⟩ | ⟨h, h', e⟩ | ⟨h, h', e⟩ <;>
    rw [e] <;>
    simp only [List.mem_cons, List.not_mem_nil, or_false, ← UInt8.toNat_inj, UInt8.toNat_ofNat',
      UInt8.reduceToNat] <;>
    omega

def bytes (p : Path) : List UInt8 := p.text.toUTF8.data.toList

theorem bytes_eq (p : Path) : p.bytes = p.chars.flatMap String.utf8EncodeChar := by
  rw [bytes, String.toUTF8_eq_toByteArray, ← String.ofList_toList (s := p.text),
    String.toByteArray_ofList]
  simp [chars, List.utf8Encode]

theorem dot_mem_bytes_iff {p : Path} : dot ∈ p.bytes ↔ '.' ∈ p.chars := by
  simp [bytes_eq, dot_mem_utf8_iff]

theorem dot_prefix_iff_bytes {p q : Path} :
    p.chars ++ ['.'] <+: q.chars ↔ p.bytes ++ [dot] <+: q.bytes := by
  rw [← utf8_prefix_iff, List.flatMap_append, ← bytes_eq, ← bytes_eq, List.flatMap_singleton, utf8_dot]

theorem lt_iff_bytes_lt {p q : Path} : p < q ↔ p.bytes < q.bytes := by
  change p.text < q.text ↔ _
  rw [String.lt_iff_toList_lt, bytes_eq, bytes_eq]
  constructor
  · exact utf8_lt_of_lt
  · intro h
    by_contra hnot
    rcases List.le_iff_lt_or_eq.mp (List.not_lt.mp hnot) with hlt | heq
    · exact List.lt_asymm h (utf8_lt_of_lt hlt)
    · rw [chars, chars, heq] at h
      exact List.lt_irrefl _ h

end Path
end Statechart
