import Statechart.Chart.Step
import Statechart.Diagnostic

/-! Stateless runs: each task takes a state to the next and performs the actions on the way. A task
is a function of its handler, so nothing happens before it is given one. -/
namespace Statechart

structure Options where
  debug : Bool := false
  historyLimit : UInt64 := 1024
deriving DecidableEq, Repr

inductive Failure where
  | error (e : RunError)
  | crashed
deriving DecidableEq

structure Ran (W α : Type) where
  result : Except Failure α
  world : W
  diagnostics : List Diagnostic

abbrev Task (W C α : Type) := Handler W C → W → Ran W α

def Performed.result {W α : Type} (p : Performed W) (value : α) : Except Failure α :=
  match p.outcome with
  | .done => .ok value
  | .failed e => .error (.error (.action e))
  | .crashed => .error .crashed

/-- Performs the actions of a state once more, and counts them. -/
def execute {W C : Type} (s : Snapshot C) : Task W C Nat := fun handler world =>
  let p := handler.perform s world
  ⟨p.result p.count, p.world, []⟩

/-- A listener sees each state before its actions are performed. -/
structure Interpreter (C E W : Type) where
  chart : Chart C E
  options : Options := {}
  listener : Option (Snapshot C → W → W) := none

namespace Interpreter

variable {C E W : Type}

def commit (i : Interpreter C E W) (next : Except ChartError (Snapshot C)) :
    Task W C (Snapshot C) := fun handler world =>
  match next with
  | .error e => ⟨.error (.error (.chart e)), world, []⟩
  | .ok s =>
    let heard := match i.listener with
      | none => world
      | some listen => listen s world
    let p := handler.perform s heard
    ⟨p.result s, p.world, Diagnostic.ofStep i.chart.name i.options.debug s⟩

variable [Event E]

def start (i : Interpreter C E W) : Task W C (Snapshot C) := i.commit (.ok i.chart.initial)

def send (i : Interpreter C E W) (s : Snapshot C) (trigger : Trigger E) :
    Task W C (Snapshot C) :=
  i.commit (i.chart.transition s trigger)

def sendFrom (i : Interpreter C E W) (path : Path) (trigger : Trigger E) :
    Task W C (Snapshot C) :=
  i.commit (i.chart.transitionFrom path trigger)

end Interpreter
end Statechart
