import Statechart.Text.Digits

/-! Spans of time: whole seconds and a fraction in nanoseconds. -/
namespace Statechart

structure Duration where
  secs : UInt64
  nanos : Nat
  nanos_lt : nanos < 1000000000 := by decide
deriving DecidableEq, Repr

namespace Duration

def zero : Duration where
  secs := 0
  nanos := 0

instance : Inhabited Duration := ⟨zero⟩

/-- Nanoseconds beyond a second are carried; a carry that overflows the seconds gives nothing. -/
def ofParts? (secs : UInt64) (nanos : Nat) : Option Duration :=
  if secs.toNat + nanos / 1000000000 < UInt64.size then
    some ⟨secs + UInt64.ofNat (nanos / 1000000000), nanos % 1000000000, by omega⟩
  else none

def ofNanos (n : Nat) : Duration :=
  ⟨UInt64.ofNat (n / 1000000000), n % 1000000000, by omega⟩

def toNanos (d : Duration) : Nat := d.secs.toNat * 1000000000 + d.nanos

/-- In the largest unit that leaves a whole part, the fraction without trailing zeros. -/
def text (d : Duration) : String :=
  let (whole, frac, unit) :=
    if 0 < d.secs then (d.secs.toNat, Text.fraction 9 d.nanos, "s")
    else if 1000000 ≤ d.nanos then
      (d.nanos / 1000000, Text.fraction 6 (d.nanos % 1000000), "ms")
    else if 1000 ≤ d.nanos then (d.nanos / 1000, Text.fraction 3 (d.nanos % 1000), "µs")
    else (d.nanos, [], "ns")
  String.ofList (Nat.toDigits 10 whole ++ frac) ++ unit

end Duration
end Statechart
