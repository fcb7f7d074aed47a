import Statechart.Time.Timestamp

/-! Timestamps as RFC 3339 text. Written in UTC with the fewest fraction digits, in threes, that lose
nothing; read with any offset, and with blanks before a field or its separator. -/
namespace Statechart.Rfc3339

open Text

/-- Years of four digits are bare, all others carry a sign. -/
def yearChars (year : Int) : List Char :=
  if 0 ≤ year ∧ year ≤ 9999 then padded 4 year.natAbs
  else (if year < 0 then '-' else '+') :: padded 4 year.natAbs

def fractionChars (nanos : Nat) : List Char :=
  if nanos = 0 then []
  else if nanos % 1000000 = 0 then '.' :: padded 3 (nanos / 1000000)
  else if nanos % 1000 = 0 then '.' :: padded 6 (nanos / 1000)
  else '.' :: padded 9 nanos

def chars (t : Timestamp) : List Char :=
  yearChars t.date.year ++ '-' :: padded 2 t.date.month ++ '-' :: padded 2 t.date.day ++
    'T' :: padded 2 t.hour ++ ':' :: padded 2 t.minute ++ ':' :: padded 2 t.second ++
    fractionChars t.nanos ++ ['Z']

def isBlank (c : Char) : Bool :=
  c.toNat ∈ [0x20, 0x85, 0xA0, 0x1680, 0x2028, 0x2029, 0x202F, 0x205F, 0x3000] ||
    (0x09 ≤ c.toNat && c.toNat ≤ 0x0D) || (0x2000 ≤ c.toNat && c.toNat ≤ 0x200A)

abbrev Scan (α : Type) := List Char → Option (α × List Char)

/-- The number a run of digits stands for. -/
def number (ds : List Char) : Nat := Nat.ofDigitChars 10 ds 0

/-- One to `most` digits after blanks. -/
def field (most : Nat) : Scan Nat := fun cs =>
  let cs := cs.dropWhile isBlank
  let ds := (cs.take most).takeWhile Char.isDigit
  if ds.isEmpty then none else some (number ds, cs.drop ds.length)

def mark (c : Char) : Scan Unit := fun cs =>
  match cs.dropWhile isBlank with
  | d :: rest => if d = c then some ((), rest) else none
  | [] => none

/-- Four digits at most, or a sign and any number of digits. -/
def year : Scan Int := fun cs =>
  match cs.dropWhile isBlank with
  | '-' :: rest => do
    let ds := rest.takeWhile Char.isDigit
    if ds.isEmpty then none else some (-(number ds : Int), rest.drop ds.length)
  | '+' :: rest => do
    let ds := rest.takeWhile Char.isDigit
    if ds.isEmpty then none else some ((number ds : Int), rest.drop ds.length)
  | cs => (field 4 cs).map fun r => ((r.1 : Int), r.2)

/-- Digits of a fraction after its point, in nanoseconds; those past the ninth are dropped. -/
def fraction : Scan Nat
  | '.' :: rest =>
    let ds := rest.takeWhile Char.isDigit
    if ds.isEmpty then none
    else some (number ((ds.take 9).rightpad 9 '0'), rest.drop ds.length)
  | cs => some (0, cs)

def offset : Scan Int := fun cs =>
  match cs.dropWhile isBlank with
  | 'Z' :: rest | 'z' :: rest => some (0, rest)
  | u :: t :: c :: rest =>
    if u.toUpper = 'U' ∧ t.toUpper = 'T' ∧ c.toUpper = 'C' then some (0, rest)
    else if u = '+' then signed 1 (t :: c :: rest)
    else if u = '-' ∨ u = '\u2212' then signed (-1) (t :: c :: rest)
    else none
  | _ => none
where
  signed (sign : Int) (cs : List Char) : Option (Int × List Char) := do
    let hours := cs.take 2
    let rest := (cs.drop 2).dropWhile fun c => c = ':' || isBlank c
    let minutes := rest.take 2
    if hours.all Char.isDigit ∧ minutes.all Char.isDigit ∧ hours.length = 2 ∧ minutes.length = 2 ∧
        number minutes < 60 ∧ number hours < 24 then
      some (sign * (number hours * 60 + number minutes : Nat), rest.drop 2)
    else none

def ofChars? (cs : List Char) : Option Timestamp := do
  let (year, cs) ← year cs
  let ((), cs) ← mark '-' cs
  let (month, cs) ← field 2 cs
  let ((), cs) ← mark '-' cs
  let (day, cs) ← field 2 cs
  let separator ← cs.head?
  guard (separator ∈ ['T', 't', ' '])
  let (hour, cs) ← field 2 cs.tail
  let ((), cs) ← mark ':' cs
  let (minute, cs) ← field 2 cs
  let ((), cs) ← mark ':' cs
  let (second, cs) ← field 2 cs
  let (nanos, cs) ← fraction cs
  let (ahead, cs) ← offset cs
  guard (cs.dropWhile isBlank).isEmpty
  let date ← Date.of? year month day
  let shown ← Timestamp.of? date hour minute second nanos
  shown.aheadOfUtc? ahead

def text (t : Timestamp) : String := String.ofList (chars t)

def read? (s : String) : Option Timestamp := ofChars? s.toList

end Statechart.Rfc3339
