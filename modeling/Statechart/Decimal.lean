/-! Decimal numbers in scientific notation: a sign, the significant digits and a power of ten. -/
namespace Statechart

/-- The number `significand * 10 ^ exponent`. The significand does not end in a zero, so that a
number has one form. -/
structure Decimal where
  negative : Bool
  significand : Nat
  exponent : Int
  reduced : significand % 10 ≠ 0 ∨ significand = 0 ∧ exponent = 0
deriving DecidableEq, Repr

namespace Decimal

def ofScientific (negative : Bool) (significand : Nat) (exponent : Int) : Decimal :=
  if hzero : significand = 0 then ⟨negative, 0, 0, .inr ⟨rfl, rfl⟩⟩
  else if hdigit : significand % 10 = 0 then
    ofScientific negative (significand / 10) (exponent + 1)
  else ⟨negative, significand, exponent, .inl hdigit⟩
termination_by significand

def signed (n : Int) : List Char :=
  (if n < 0 then ['-'] else []) ++ Nat.toDigits 10 n.natAbs

/-- The point stands among the digits or close to them; a number too large or too small for that
keeps its power of ten. -/
def chars (d : Decimal) : List Char :=
  let digits := Nat.toDigits 10 d.significand
  let whole : Int := digits.length + d.exponent
  let sign := if d.negative then ['-'] else []
  if 0 ≤ d.exponent ∧ whole ≤ 16 then
    sign ++ digits ++ List.replicate d.exponent.toNat '0' ++ ['.', '0']
  else if 0 < whole ∧ whole ≤ 16 then
    sign ++ digits.take whole.toNat ++ '.' :: digits.drop whole.toNat
  else if -5 < whole ∧ whole ≤ 0 then
    sign ++ ['0', '.'] ++ List.replicate (-whole).toNat '0' ++ digits
  else
    let rest := if digits.length = 1 then [] else '.' :: digits.tail
    sign ++ digits.take 1 ++ rest ++ 'e' :: signed (whole - 1)

example : String.ofList (ofScientific false 150 (-2)).chars = "1.5" := by cbv

end Decimal
end Statechart
