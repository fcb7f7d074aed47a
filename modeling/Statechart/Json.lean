import Statechart.Decimal

/-! The values of the wire format: null, truth values, integers, decimal numbers, text, arrays and
objects. A number that is written with a point or a power of ten is no integer, even if it is whole.
Objects keep their fields in ascending order of the key, so equal objects are equal lists. -/
namespace Statechart

inductive Json where
  | null
  | bool (b : Bool)
  | int (n : Int)
  | decimal (d : Decimal)
  | text (s : String)
  | arr (items : List Json)
  | obj (fields : List (String × Json))
deriving Repr, Inhabited

namespace Json

mutual
def decEq : (a b : Json) → Decidable (a = b)
  | .null, .null => isTrue rfl
  | .bool a, .bool b => decidable_of_iff (a = b) (by simp)
  | .int a, .int b => decidable_of_iff (a = b) (by simp)
  | .decimal a, .decimal b => decidable_of_iff (a = b) (by simp)
  | .text a, .text b => decidable_of_iff (a = b) (by simp)
  | .arr as, .arr bs => @decidable_of_iff _ (as = bs) (by simp) (decEqItems as bs)
  | .obj as, .obj bs => @decidable_of_iff _ (as = bs) (by simp) (decEqFields as bs)
  | .null, .bool _ | .null, .int _ | .null, .decimal _ | .null, .text _
  | .null, .arr _ | .null, .obj _
  | .bool _, .null | .bool _, .int _ | .bool _, .decimal _ | .bool _, .text _
  | .bool _, .arr _ | .bool _, .obj _
  | .int _, .null | .int _, .bool _ | .int _, .decimal _ | .int _, .text _
  | .int _, .arr _ | .int _, .obj _
  | .decimal _, .null | .decimal _, .bool _ | .decimal _, .int _ | .decimal _, .text _
  | .decimal _, .arr _ | .decimal _, .obj _
  | .text _, .null | .text _, .bool _ | .text _, .int _ | .text _, .decimal _
  | .text _, .arr _ | .text _, .obj _
  | .arr _, .null | .arr _, .bool _ | .arr _, .int _ | .arr _, .decimal _
  | .arr _, .text _ | .arr _, .obj _
  | .obj _, .null | .obj _, .bool _ | .obj _, .int _ | .obj _, .decimal _
  | .obj _, .text _ | .obj _, .arr _ =>
    isFalse (by simp)

def decEqItems : (as bs : List Json) → Decidable (as = bs)
  | [], [] => isTrue rfl
  | [], _ :: _ | _ :: _, [] => isFalse (by simp)
  | a :: as, b :: bs =>
    have := decEq a b
    have := decEqItems as bs
    decidable_of_iff (a = b ∧ as = bs) (by simp)

def decEqFields : (as bs : List (String × Json)) → Decidable (as = bs)
  | [], [] => isTrue rfl
  | [], _ :: _ | _ :: _, [] => isFalse (by simp)
  | (k, a) :: as, (l, b) :: bs =>
    have := decEq a b
    have := decEqFields as bs
    decidable_of_iff (k = l ∧ a = b ∧ as = bs) (by simp [and_assoc])
end

instance : DecidableEq Json := decEq

def fields : Json → List (String × Json)
  | .obj fields => fields
  | _ => []

/-- The field of that name, if the value is an object and has it. -/
def field? (j : Json) (key : String) : Option Json :=
  (j.fields.find? (·.1 == key)).map (·.2)

/-- Sets a field of an ordered field list in its place. -/
def setField (key : String) (value : Json) : List (String × Json) → List (String × Json)
  | [] => [(key, value)]
  | (k, v) :: rest =>
    if key < k then (key, value) :: (k, v) :: rest
    else if key = k then (key, value) :: rest
    else (k, v) :: setField key value rest

/-- Writes the last key as text below the keys before it; on the way a value that is no object
gives way to an object. -/
def put : List String → Json → Json
  | [], j => j
  | [key], _ => .text key
  | key :: rest, j =>
    .obj (setField key (put rest ((j.field? key).getD (.obj []))) j.fields)

def escape (c : Char) : List Char :=
  if c = '\"' then ['\\', '\"']
  else if c = '\\' then ['\\', '\\']
  else if c = '\n' then ['\\', 'n']
  else if c = '\r' then ['\\', 'r']
  else if c = '\t' then ['\\', 't']
  else if c = '\x08' then ['\\', 'b']
  else if c = '\x0c' then ['\\', 'f']
  else if c.toNat < 32 then
    ['\\', 'u', '0', '0', (c.toNat / 16).digitChar, (c.toNat % 16).digitChar]
  else [c]

def quote (s : String) : List Char := '\"' :: s.toList.flatMap escape ++ ['\"']

mutual
def compactChars : Json → List Char
  | .null => "null".toList
  | .bool true => "true".toList
  | .bool false => "false".toList
  | .int n => Decimal.signed n
  | .decimal d => d.chars
  | .text s => quote s
  | .arr items => '[' :: compactItems items ++ [']']
  | .obj fields => '\x7b' :: compactFields fields ++ ['\x7d']

def compactItems : List Json → List Char
  | [] => []
  | [j] => compactChars j
  | j :: rest => compactChars j ++ ',' :: compactItems rest

def compactFields : List (String × Json) → List Char
  | [] => []
  | [(k, j)] => quote k ++ ':' :: compactChars j
  | (k, j) :: rest => quote k ++ ':' :: compactChars j ++ ',' :: compactFields rest
end

def compact (j : Json) : String := String.ofList j.compactChars

end Json
end Statechart
