import Statechart.Path

/-! What can be wrong with a declaration. States are named by their path, the root by the chart. -/
namespace Statechart

inductive Problem where
  | missingInitial (state : String)
  | unknownInitial (state initial : String)
  | noChildren (state : String)
  | atomicWithChildren (state : String)
  | initialOnNonCompound (state initial : String)
  | duplicateDelay (state : String)
  | invalidKey (key : String)
  | duplicateState (state : String)
  | unknownTarget (source : Path) (trigger target : String)
  | rootTarget (source : Path) (trigger : String)
  | unknownGuardState (source : Path) (trigger state : String)
  | missingOption (option : String)
  | several (problems : List Problem)
deriving Repr

namespace Problem

mutual
def message : Problem → String
  | .missingInitial state =>
    "Initial state of '" ++ state ++ "' not specified. Call .initial(key) before .build()"
  | .unknownInitial state initial =>
    "Initial state '" ++ initial ++ "' is not a child of '" ++ state ++ "'"
  | .noChildren state =>
    "State '" ++ state ++ "' has no child states. Add at least one with .state(..)"
  | .atomicWithChildren state => "Atomic state '" ++ state ++ "' cannot have child states"
  | .initialOnNonCompound state initial =>
    "State '" ++ state ++ "' is not compound and cannot take an initial state '" ++ initial ++ "'"
  | .duplicateDelay state => "State '" ++ state ++ "' declares more than one delayed transition"
  | .invalidKey key =>
    "Invalid state key '" ++ key ++ "': keys must be non-empty and free of '.' and '#'"
  | .duplicateState state => "State '" ++ state ++ "' is declared more than once"
  | .unknownTarget source trigger target =>
    "Transition from '" ++ source.text ++ "' on '" ++ trigger ++ "' targets unknown state '" ++
      target ++ "'"
  | .rootTarget source trigger =>
    "Transition from '" ++ source.text ++ "' on '" ++ trigger ++
      "' cannot target the machine root"
  | .unknownGuardState source trigger state =>
    "Guard of transition from '" ++ source.text ++ "' on '" ++ trigger ++
      "' refers to unknown state '" ++ state ++ "'"
  | .missingOption option => "Required option '" ++ option ++ "' not specified"
  | .several problems =>
    "Machine definition is invalid: " ++ "; ".intercalate (messages problems)

def messages : List Problem → List String
  | [] => []
  | p :: rest => message p :: messages rest
end

/-- One problem stands for itself, several are reported together. -/
def report : List Problem → Option Problem
  | [] => none
  | [p] => some p
  | ps => some (.several ps)

end Problem
end Statechart
