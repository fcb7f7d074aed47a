import Statechart.Json

/-! Wire forms: values written as JSON and read back. Reading ignores the fields it does not know. -/
namespace Statechart

class Wire (α : Type) where
  encode : α → Json
  decode : Json → Option α

export Wire (encode decode)

namespace Wire

instance : Wire Json := ⟨id, some⟩

instance : Wire String where
  encode := .text
  decode
    | .text s => some s
    | _ => none

instance : Wire Bool where
  encode := .bool
  decode
    | .bool b => some b
    | _ => none

instance : Wire UInt64 where
  encode n := .int n.toNat
  decode
    | .int n => if 0 ≤ n ∧ n < UInt64.size then some (UInt64.ofNat n.toNat) else none
    | _ => none

instance : Wire Int64 where
  encode n := .int n.toInt
  decode
    | .int n =>
      if Int64.minValue.toInt ≤ n ∧ n ≤ Int64.maxValue.toInt then some (Int64.ofInt n) else none
    | _ => none

instance {α : Type} [Wire α] : Wire (List α) where
  encode xs := .arr (xs.map encode)
  decode
    | .arr items => items.mapM decode
    | _ => none

/-- Null stands for no value. -/
instance {α : Type} [Wire α] : Wire (Option α) where
  encode
    | some x => encode x
    | none => .null
  decode
    | .null => some none
    | j => (decode j).map some

/-- The fields of a record: those of an object, or the items of an array in the order of the names.
An array may leave out the last fields, but has `least` of them. -/
def record? (least : Nat) (names : List String) : Json → Option (List (String × Json))
  | .obj fields => some fields
  | .arr items =>
    if least ≤ items.length ∧ items.length ≤ names.length then some (names.zip items) else none
  | _ => none

def field {α : Type} [Wire α] (fields : List (String × Json)) (name : String) : Option α := do
  let (_, j) ← fields.find? (·.1 == name)
  decode j

/-- A field with a value to take when it is missing. -/
def fieldOr {α : Type} [Wire α] (fields : List (String × Json)) (name : String) (missing : α) :
    Option α :=
  match fields.find? (·.1 == name) with
  | some (_, j) => decode j
  | none => some missing

end Wire
end Statechart
