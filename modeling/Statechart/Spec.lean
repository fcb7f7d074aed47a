import Statechart.Action
import Statechart.Guard

/-! Declarations of charts: trees of states with their transitions, before any name is resolved. -/
namespace Statechart

inductive Shape where
  | atomic
  | compound
  | parallel
deriving DecidableEq, Repr

/-- Without a target the transition stays at its source. -/
structure TransitionSpec (C E : Type) where
  target : Option String := none
  guard : Option (Guard C E) := none
  inState : Option String := none
  internal : Bool := false
  actions : List (Action C E) := []

structure StateSpec (C E : Type) where
  key : String
  shape : Shape
  initial : Option String := none
  entry : List (Action C E) := []
  exit : List (Action C E) := []
  on : List (String × TransitionSpec C E) := []
  after : List (Duration × TransitionSpec C E) := []
  states : List (StateSpec C E) := []

structure ChartSpec (C E : Type) where
  name : String
  context : C
  initial : Option String := none
  states : List (StateSpec C E)

/-- The root is a compound state without actions or transitions. -/
def ChartSpec.root {C E : Type} (spec : ChartSpec C E) : StateSpec C E where
  key := ""
  shape := .compound
  initial := spec.initial
  states := spec.states

end Statechart
