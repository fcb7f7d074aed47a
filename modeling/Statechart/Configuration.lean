import Statechart.Json
import Statechart.Path

/-! Configurations: the set of a chart's active leaves, kept as an ascending list of paths. -/
namespace Statechart

structure Configuration where
  leaves : List Path
  ascending : leaves.Pairwise (· < ·) := by simp
deriving DecidableEq

namespace Configuration

/-- Puts a path in its place among ascending ones, once. -/
def insertPath (p : Path) : List Path → List Path
  | [] => [p]
  | q :: rest =>
    if p < q then p :: q :: rest
    else if p = q then q :: rest
    else q :: insertPath p rest

theorem mem_insertPath {p q : Path} {ps : List Path} :
    q ∈ insertPath p ps ↔ q = p ∨ q ∈ ps := by
  induction ps with
  | nil => simp [insertPath]
  | cons r rest ih =>
    simp only [insertPath]
    split
    · simp
    · split
      · rename_i h
        simp [h]
      · simp only [List.mem_cons, ih]
        exact ⟨fun h => h.elim (fun h => .inr (.inl h)) (·.imp_right .inr),
          fun h => h.elim (fun h => .inr (.inl h)) (·.imp_right .inr)⟩

theorem lt_of_not_lt {p q : Path} (h : ¬p < q) (hne : p ≠ q) : q < p := by
  have hle : q.text ≤ p.text := String.not_lt.mp h
  refine Classical.byContradiction fun hq => hne ?_
  have he : p.text = q.text := String.le_antisymm (String.not_lt.mp hq) hle
  cases p
  cases q
  simpa using he

theorem pairwise_insertPath (p : Path) {ps : List Path} (h : ps.Pairwise (· < ·)) :
    (insertPath p ps).Pairwise (· < ·) := by
  induction ps with
  | nil => simp [insertPath]
  | cons r rest ih =>
    have hr := List.pairwise_cons.mp h
    simp only [insertPath]
    split
    · rename_i hp
      refine List.pairwise_cons.mpr ⟨fun q hq => ?_, h⟩
      rcases List.mem_cons.mp hq with rfl | hq
      · exact hp
      · exact String.lt_trans hp (hr.1 q hq)
    · split
      · exact h
      · rename_i hp hne
        refine List.pairwise_cons.mpr ⟨fun q hq => ?_, ih hr.2⟩
        rcases mem_insertPath.mp hq with rfl | hq
        · exact lt_of_not_lt hp hne
        · exact hr.1 q hq

def empty : Configuration where
  leaves := []

instance : Inhabited Configuration := ⟨empty⟩

def insert (c : Configuration) (p : Path) : Configuration :=
  ⟨insertPath p c.leaves, pairwise_insertPath p c.ascending⟩

def ofLeaves (ps : List Path) : Configuration := ps.foldl insert empty

@[simp] theorem leaves_insert (c : Configuration) (p : Path) :
    (c.insert p).leaves = insertPath p c.leaves := rfl

theorem mem_ofLeaves {p : Path} {ps : List Path} : p ∈ (ofLeaves ps).leaves ↔ p ∈ ps := by
  have general : ∀ (qs : List Path) (c : Configuration),
      p ∈ (qs.foldl insert c).leaves ↔ p ∈ c.leaves ∨ p ∈ qs := by
    intro qs
    induction qs with
    | nil => simp
    | cons q rest ih =>
      intro c
      simp only [List.foldl_cons, ih, leaves_insert, mem_insertPath, List.mem_cons]
      exact ⟨fun h => h.elim (·.elim (.inr ∘ .inl) .inl) (.inr ∘ .inr),
        fun h => h.elim (.inl ∘ .inr) (·.elim (.inl ∘ .inl) .inr)⟩
  simpa [ofLeaves, empty] using general ps empty

def size (c : Configuration) : Nat := c.leaves.length

def isEmpty (c : Configuration) : Bool := c.leaves.isEmpty

/-- Whether the path is that of an active state: of a leaf or of a state above one. -/
def isActive (c : Configuration) (p : Path) : Bool := c.leaves.any p.contains

/-- The paths of all active states but the root, ascending. -/
def activePaths (c : Configuration) : List Path :=
  (ofLeaves (c.leaves.flatMap fun leaf => leaf.ancestors ++ [leaf])).leaves

/-- Nested by key: a compound state stands over the text of its active child, a parallel one over
its regions. -/
def value (c : Configuration) : Json :=
  c.leaves.foldl (fun j leaf => j.put leaf.segments) (.obj [])

def text (c : Configuration) : String :=
  "[" ++ ", ".intercalate (c.leaves.map (·.text)) ++ "]"

end Configuration
end Statechart
