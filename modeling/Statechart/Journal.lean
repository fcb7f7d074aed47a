import Statechart.Configuration
import Statechart.Time.Timestamp

/-! Journals: the moves of a chart from one configuration to another, oldest first, with an optional
limit on how many are kept. -/
namespace Statechart

structure Move where
  source : Configuration
  target : Configuration
  trigger : String
  time : Timestamp
deriving DecidableEq

structure Journal where
  moves : List Move
  limit : Option UInt64
deriving DecidableEq

namespace Journal

def unbounded : Journal := ⟨[], none⟩

def bounded (limit : UInt64) : Journal := ⟨[], some limit⟩

/-- Adds a move and drops the oldest ones beyond the limit. A limit of zero refuses every move and
drops none. -/
def push (j : Journal) (m : Move) : Journal :=
  match j.limit with
  | none => { j with moves := j.moves ++ [m] }
  | some limit =>
    if limit = 0 then j
    else { j with moves := j.moves.drop (j.moves.length + 1 - limit.toNat) ++ [m] }

def size (j : Journal) : Nat := j.moves.length

def isEmpty (j : Journal) : Bool := j.moves.isEmpty

/-- The configurations the journal has passed through. -/
def configurations (j : Journal) : List Configuration :=
  (j.moves.head?.map (·.source)).toList ++ j.moves.map (·.target)

/-- The time from the first move to the last; none if there is no move, or if the last is earlier. -/
def duration (j : Journal) : Option Duration := do
  let first ← j.moves.head?
  let last ← j.moves.getLast?
  last.time.since? first.time

@[simp] theorem push_limit (j : Journal) (m : Move) : (j.push m).limit = j.limit := by
  unfold push
  split
  · rfl
  · split <;> rfl

end Journal
end Statechart
