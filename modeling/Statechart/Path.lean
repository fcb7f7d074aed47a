/-! Paths of states: the keys from the root down, joined by dots. The root has the empty path.
Any text is a path; only the paths of a chart's own states have well-formed keys. -/
namespace Statechart

structure Path where
  text : String
deriving DecidableEq, Repr, Inhabited

namespace Path

/-- Paths are ordered as text, by code point. -/
instance : LT Path := ⟨fun p q => p.text < q.text⟩

instance : DecidableLT Path := fun p q => inferInstanceAs (Decidable (p.text < q.text))

def root : Path := ⟨""⟩

def chars (p : Path) : List Char := p.text.toList

def isRoot (p : Path) : Bool := p.text == ""

def child (p : Path) (key : String) : Path :=
  if p.isRoot then ⟨key⟩ else ⟨p.text ++ "." ++ key⟩

/-- What stands before the last dot; the root if there is none. -/
def beforeLastDot (cs : List Char) : List Char :=
  (cs.reverse.dropWhile (· ≠ '.')).tail.reverse

def afterLastDot (cs : List Char) : List Char :=
  (cs.reverse.takeWhile (· ≠ '.')).reverse

theorem beforeLastDot_length_lt {cs : List Char} (h : cs ≠ []) :
    (beforeLastDot cs).length < cs.length := by
  have hd := (List.dropWhile_suffix (fun c : Char => decide (c ≠ '.')) (l := cs.reverse)).length_le
  have hc : 0 < cs.length := List.length_pos_iff.mpr h
  simp only [beforeLastDot, List.length_reverse, List.length_tail] at hd ⊢
  omega

def parent (p : Path) : Option Path :=
  if p.isRoot then none else some ⟨String.ofList (beforeLastDot p.chars)⟩

theorem parent_length_lt {p q : Path} (h : p.parent = some q) :
    q.chars.length < p.chars.length := by
  unfold parent at h
  split at h
  · simp at h
  · rename_i hr
    obtain rfl := Option.some.inj h
    have hne : p.chars ≠ [] := by
      intro he
      exact hr (by simpa [isRoot, chars] using he)
    simpa [chars] using beforeLastDot_length_lt hne

def key (p : Path) : String := String.ofList (afterLastDot p.chars)

/-- The keys that are not empty. -/
def segments (p : Path) : List String :=
  ((p.chars.splitOn '.').filter (· ≠ [])).map String.ofList

def depth (p : Path) : Nat := p.segments.length

def isAncestorOf (p q : Path) : Bool :=
  if p.isRoot then !q.isRoot else (p.chars ++ ['.']).isPrefixOf q.chars

def contains (p q : Path) : Bool := p == q || p.isAncestorOf q

/-- The paths above this one, the root apart, outermost first. -/
def ancestors (p : Path) : List Path :=
  match _h : p.parent with
  | none => []
  | some q => if q.isRoot then [] else q.ancestors ++ [q]
termination_by p.chars.length
decreasing_by exact parent_length_lt _h

/-- The path below this one that dotted text names. -/
def descend (p : Path) (below : String) : Path :=
  (below.toList.splitOn '.').foldl (fun q key => q.child (String.ofList key)) p

end Path
end Statechart
