import Statechart.Diagnostic

/-! Timers of delayed transitions. At most one is armed for a state, and each arming has a generation
of its own, so that an alarm that went off before its timer was cancelled or armed anew can be told
from a current one. -/
namespace Statechart

structure Alarm where
  state : Path
  generation : Nat
deriving DecidableEq, Repr

/-- An alarm that has yet to go off. The deadline counts nanoseconds. -/
structure Sleeper where
  alarm : Alarm
  deadline : Nat
deriving DecidableEq, Repr

/-- The first whole millisecond that is not before the deadline. -/
def Sleeper.due (s : Sleeper) : Nat := (s.deadline + 999999) / 1000000

/-- Claiming a timer disarms it and lets its alarm sleep on; only cancelling stops the alarm. A closed
registry arms timers that never go off. -/
structure Timers where
  armed : List Alarm := []
  sleeping : List Sleeper := []
  generation : Nat := 0
  closed : Bool := false
deriving DecidableEq, Repr

abbrev Traced (α : Type) := α × List Diagnostic

namespace Timers

def armedFor? (t : Timers) (state : Path) : Option Alarm := t.armed.find? (·.state == state)

def isArmed (t : Timers) (state : Path) : Bool := (t.armedFor? state).isSome

def size (t : Timers) : Nat := t.armed.length

def cancel (t : Timers) (state : Path) : Traced Timers :=
  match t.armedFor? state with
  | none => (t, [])
  | some alarm =>
    ({ t with
        armed := t.armed.filter (· ≠ alarm)
        sleeping := t.sleeping.filter (·.alarm ≠ alarm) },
      [.timerCancelled state alarm.generation])

/-- Arms a timer in place of one that is armed for the state. `wake` tells when a sleep ends that
begins now, in nanoseconds. -/
def arm (t : Timers) (wake : Duration → Nat) (state : Path) (delay : Duration) : Traced Timers :=
  let (t, cancelled) := t.cancel state
  let alarm : Alarm := ⟨state, t.generation + 1⟩
  ({ t with
      armed := t.armed ++ [alarm]
      sleeping := if t.closed then t.sleeping else t.sleeping ++ [⟨alarm, wake delay⟩]
      generation := t.generation + 1 },
    cancelled ++ [.timerArmed state alarm.generation delay])

def cancelStep (t : Traced Timers) : Fired → Traced Timers
  | .cancel state =>
    let (timers, reported) := t.1.cancel state
    (timers, t.2 ++ reported)
  | _ => t

def armStep (wake : Duration → Nat) (t : Traced Timers) : Fired → Traced Timers
  | .schedule state delay =>
    let (timers, reported) := t.1.arm wake state delay
    (timers, t.2 ++ reported)
  | _ => t

/-- Follows what a step fired: all that it cancels, then all that it schedules. -/
def apply (t : Timers) (wake : Duration → Nat) (fired : List Fired) : Traced Timers :=
  fired.foldl (armStep wake) (fired.foldl cancelStep (t, []))

/-- Disarms the timer that an alarm belongs to, if it is still the one armed for its state. -/
def claim (t : Timers) (alarm : Alarm) : Option Timers :=
  if t.armedFor? alarm.state = some alarm then
    some { t with armed := t.armed.filter (· ≠ alarm) }
  else none

def cancelAll (t : Timers) : Timers :=
  { t with armed := [], sleeping := t.sleeping.filter (!t.armed.contains ·.alarm) }

def shutdown (t : Timers) : Timers := { t with sleeping := [], closed := true }

def nextDue (t : Timers) : Option Nat := (t.sleeping.map (·.due)).min?

/-- The alarms that have gone off by a millisecond, by the time they did and then in the order of
their arming. -/
def ring (t : Timers) (clock : Nat) : List Alarm × Timers :=
  let (off, asleep) := t.sleeping.partition (·.due ≤ clock)
  ((off.mergeSort (·.due ≤ ·.due)).map (·.alarm), { t with sleeping := asleep })

end Timers
end Statechart
