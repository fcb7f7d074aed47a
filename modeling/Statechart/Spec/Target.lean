import Statechart.Spec.Layout
import Statechart.Spec.Problem

/-! How a declaration names another state: `#chart.path` from the root, `.path` below the source, any
other text below the source's parent. -/
namespace Statechart

/-- The text after `#chart.`, if it starts so. -/
def afterChartName? (chart raw : String) : Option String :=
  let lead := '#' :: chart.toList ++ ['.']
  if lead.isPrefixOf raw.toList then some (String.ofList (raw.toList.drop lead.length)) else none

def targetPath (chart : String) (source : Path) (trigger raw : String) : Except Problem Path :=
  match raw.toList with
  | '#' :: name =>
    if name = chart.toList then .error (.rootTarget source trigger)
    else
      match afterChartName? chart raw with
      | some path => .ok ⟨path⟩
      | none => .error (.unknownTarget source trigger raw)
  | '.' :: below => .ok (source.descend (String.ofList below))
  | _ => .ok ((source.parent.getD .root).descend raw)

/-- The path a guard names: with or without the chart in front, always from the root. -/
def guardPath (chart raw : String) : Path := ⟨(afterChartName? chart raw).getD raw⟩

namespace TransitionSpec

variable {C E : Type}

/-- The transition of a state at `source`, with all its names resolved. A transition without a target
is internal and stays. -/
def resolve (t : TransitionSpec C E) (chart : String) (index : Path → Option NodeId)
    (source : Path) (trigger : String) : Except Problem (Candidate C E) := do
  let path ← match t.target with
    | none => .ok source
    | some raw => targetPath chart source trigger raw
  let target ← match index path with
    | some id => .ok id
    | none => .error (.unknownTarget source trigger (t.target.getD ""))
  let guard ← match t.inState with
    | none => .ok t.guard
    | some raw =>
      let state := guardPath chart raw
      if (index state).isNone then .error (.unknownGuardState source trigger raw)
      else
        match t.guard with
        | none => .ok (some (.inState state))
        | some g => .ok (some (g.within state))
  return {
    target := target
    guard := guard
    internal := t.internal || t.target.isNone
    actions := t.actions }

end TransitionSpec
end Statechart
