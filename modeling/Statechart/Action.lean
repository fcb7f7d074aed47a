import Statechart.Text.Quoted
import Statechart.Time.Duration
import Statechart.Trigger

/-! Actions as a chart declares them, and as a step reports them. -/
namespace Statechart

/-- Either a name for the application to run, or a named update of the context. -/
inductive Action (C E : Type) where
  | run (name : String)
  | assign (name : String) (update : C → Trigger E → C)

namespace Action

variable {C E : Type}

def name : Action C E → String
  | .run name => name
  | .assign name _ => name

def text : Action C E → String
  | .run name => "Run(" ++ Text.quote name ++ ")"
  | .assign name _ => "Assign \x7b name: " ++ Text.quote name ++ " \x7d"

end Action

/-- What a step fired: the declared actions it came upon, and the delays it started and ended. -/
inductive Fired where
  | run (name : String)
  | assign (name : String)
  | schedule (state : Path) (delay : Duration)
  | cancel (state : Path)
deriving DecidableEq, Repr

namespace Fired

def name : Fired → String
  | .run name | .assign name => name
  | .schedule .. => "schedule"
  | .cancel .. => "cancel"

def text : Fired → String
  | .run name | .assign name => name
  | .schedule state delay => "schedule(" ++ state.text ++ ", " ++ delay.text ++ ")"
  | .cancel state => "cancel(" ++ state.text ++ ")"

end Fired
end Statechart
