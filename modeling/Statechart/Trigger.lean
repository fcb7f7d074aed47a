import Statechart.Path

/-! What starts a step: the start of the chart, an event, or the end of a state's delay. -/
namespace Statechart

/-- Events are told apart by the name of their type; what else they carry is for guards and
assignments. -/
class Event (E : Type) where
  typeName : E → String

inductive Trigger (E : Type) where
  | init
  | event (e : E)
  | after (state : Path)
deriving DecidableEq, Repr

namespace Trigger

/-- How the end of a state's delay is shown. -/
def delayText (state : Path) : String := "after#" ++ state.text

def text {E : Type} [Event E] : Trigger E → String
  | .init => "init"
  | .event e => Event.typeName e
  | .after state => delayText state

def event? {E : Type} : Trigger E → Option E
  | .event e => some e
  | _ => none

end Trigger
end Statechart
