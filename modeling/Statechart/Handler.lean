import Statechart.Chart

/-! Handlers perform the actions that a step fires for the application. All that a handler remembers
or changes is its world, which is passed along from call to call. -/
namespace Statechart

inductive ActionError where
  | unhandled (action : String)
  | failed (action message : String)
deriving DecidableEq, Repr

def ActionError.message : ActionError → String
  | .unhandled action => "No handler for action '" ++ action ++ "'"
  | .failed action message => "Action '" ++ action ++ "' failed: " ++ message

inductive RunError where
  | chart (e : ChartError)
  | action (e : ActionError)
  | stopped
deriving DecidableEq

def RunError.message : RunError → String
  | .chart e => e.message
  | .action e => e.message
  | .stopped => "Service has stopped"

/-- The end of a call into the application. A call that crashed never came back. -/
inductive Outcome where
  | done
  | failed (e : ActionError)
  | crashed
deriving DecidableEq, Repr

structure Handler (W C : Type) where
  handle : String → C → W → Outcome × W

structure Performed (W : Type) where
  outcome : Outcome
  count : Nat
  world : W

namespace Handler

variable {W C : Type}

/-- Runs actions in order, up to and including the first that does not end well, and counts those
that do. -/
def performNames (h : Handler W C) (context : C) : List String → W → Performed W
  | [], world => ⟨.done, 0, world⟩
  | name :: rest, world =>
    match h.handle name context world with
    | (.done, world) =>
      let r := h.performNames context rest world
      { r with count := r.count + 1 }
    | (outcome, world) => ⟨outcome, 0, world⟩

def runNames (fired : List Fired) : List String :=
  fired.filterMap fun
    | .run name => some name
    | _ => none

def perform (h : Handler W C) (s : Snapshot C) (world : W) : Performed W :=
  h.performNames s.context (runNames s.fired) world

end Handler
end Statechart
