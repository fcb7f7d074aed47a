import Statechart.Action
import Statechart.Guard

/-! The state of a chart after a step, with all that the step reports. -/
namespace Statechart

/-- A guard that gave no answer, on a transition of the state `source`. -/
structure GuardFault where
  source : Path
  trigger : String
  error : GuardError
deriving DecidableEq, Repr

def GuardFault.message (f : GuardFault) : String :=
  "Guard on '" ++ f.source.text ++ "' for event '" ++ f.trigger ++ "' failed: " ++ f.error.message

structure Snapshot (C : Type) where
  configuration : Configuration
  context : C
  fired : List Fired
  changed : Bool
  faults : List GuardFault
  trigger : String
deriving DecidableEq

namespace Snapshot

variable {C : Type}

def hasFired (s : Snapshot C) (name : String) : Bool := s.fired.any (·.name == name)

def firedNames (s : Snapshot C) : List String := s.fired.map (·.name)

end Snapshot
end Statechart
