import Statechart.Handler
import Statechart.Json

/-! What a run reports to its operators. -/
namespace Statechart

inductive Level where
  | error
  | warn
  | debug
  | trace
deriving DecidableEq, Repr

def Level.text : Level → String
  | .error => "ERROR"
  | .warn => "WARN"
  | .debug => "DEBUG"
  | .trace => "TRACE"

inductive Diagnostic where
  | guardFailed (chart : String) (fault : GuardFault)
  | stepped (chart trigger : String) (configuration : Configuration) (actions : List String)
      (changed : Bool)
  | timerArmed (state : Path) (generation : Nat) (delay : Duration)
  | timerCancelled (state : Path) (generation : Nat)
  | timerStale (state : Path) (generation : Nat)
  | entryFailed (chart : String) (error : ActionError)
  | actionFailed (chart : String) (error : ActionError)
  | serviceStopped (chart : String)
  | serviceLost
deriving DecidableEq

namespace Diagnostic

def level : Diagnostic → Level
  | .guardFailed .. => .warn
  | .stepped .. | .serviceStopped .. => .debug
  | .timerArmed .. | .timerCancelled .. | .timerStale .. => .trace
  | .entryFailed .. | .actionFailed .. | .serviceLost => .error

def message : Diagnostic → String
  | .guardFailed .. => "guard failed"
  | .stepped .. => "processed event"
  | .timerArmed .. => "timer armed"
  | .timerCancelled .. => "timer cancelled"
  | .timerStale .. => "dropped stale timer"
  | .entryFailed .. => "entry actions failed"
  | .actionFailed .. => "action failed"
  | .serviceStopped .. => "service stopped"
  | .serviceLost => "driver task failed"

def fields : Diagnostic → List (String × Json)
  | .guardFailed chart fault => [("machine", .text chart), ("fault", .text fault.message)]
  | .stepped chart trigger configuration actions changed =>
    [("machine", .text chart), ("event", .text trigger),
      ("configuration", .text configuration.text), ("actions", .text (Text.quoteAll actions)),
      ("changed", .bool changed)]
  | .timerArmed state generation delay =>
    [("node", .text state.text), ("generation", .int generation), ("delay", .text delay.text)]
  | .timerCancelled state generation | .timerStale state generation =>
    [("node", .text state.text), ("generation", .int generation)]
  | .entryFailed chart error | .actionFailed chart error =>
    [("machine", .text chart), ("error", .text error.message)]
  | .serviceStopped chart => [("machine", .text chart)]
  | .serviceLost => []

/-- The faults of a step, and the step itself when debugging. -/
def ofStep {C : Type} (chart : String) (debug : Bool) (s : Snapshot C) : List Diagnostic :=
  s.faults.map (.guardFailed chart) ++
    if debug then [.stepped chart s.trigger s.configuration s.firedNames s.changed] else []

end Diagnostic
end Statechart
