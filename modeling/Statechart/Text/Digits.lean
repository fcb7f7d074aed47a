/-! Decimal digits: numbers with leading zeros, and fractions without trailing ones. -/
namespace Statechart.Text

/-- The digits of a number, with leading zeros up to a width. -/
def padded (width n : Nat) : List Char := (Nat.toDigits 10 n).leftpad width '0'

@[simp] theorem ofDigitChars_padded (width n : Nat) :
    Nat.ofDigitChars 10 (padded width n) 0 = n := by
  simp [padded, List.leftpad, Nat.ofDigitChars_append]

theorem isDigit_of_mem_padded {width n : Nat} {c : Char} (h : c ∈ padded width n) : c.isDigit := by
  rcases List.mem_append.mp h with h | h
  · rw [List.eq_of_mem_replicate h]
    rfl
  · exact Nat.isDigit_of_mem_toDigits (by decide) (by decide) h

/-- A fraction of `width` places without its trailing zeros, after a point; nothing if it is zero. -/
def fraction (width n : Nat) : List Char :=
  match ((padded width n).reverse.dropWhile (· == '0')).reverse with
  | [] => []
  | ds => '.' :: ds

end Statechart.Text
