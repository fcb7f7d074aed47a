import Statechart.Configuration
import Statechart.Action
import Statechart.Wire

/-! Wire forms of paths, configurations, durations and fired actions. -/
namespace Statechart.Wire

instance : Wire Path where
  encode p := .text p.text
  decode j := (decode j).map Path.mk

instance : Wire Configuration where
  encode c := .obj [("leaves", encode c.leaves)]
  decode j := do
    let fields ← record? 1 ["leaves"] j
    let leaves ← field fields "leaves"
    return .ofLeaves leaves

/-- A duration has no fields but its own. -/
instance : Wire Duration where
  encode d := .obj [("nanos", .int d.nanos), ("secs", encode d.secs)]
  decode j := do
    let fields ← record? 2 ["secs", "nanos"] j
    if fields.all fun f => f.1 == "secs" || f.1 == "nanos" then
      let secs ← field fields "secs"
      let nanos : UInt64 ← field fields "nanos"
      if nanos < 4294967296 then Duration.ofParts? secs nanos.toNat else none
    else none

/-- One field, named for the kind of action. -/
instance : Wire Fired where
  encode
    | .run name => .obj [("Run", .text name)]
    | .assign name => .obj [("Assign", .text name)]
    | .schedule state delay =>
      .obj [("Schedule", .obj [("delay", encode delay), ("node", encode state)])]
    | .cancel state => .obj [("Cancel", .obj [("node", encode state)])]
  decode
    | .obj [("Run", name)] => (decode name).map .run
    | .obj [("Assign", name)] => (decode name).map .assign
    | .obj [("Schedule", .obj fields)] => do
      return .schedule (← field fields "node") (← field fields "delay")
    | .obj [("Cancel", .obj fields)] => do return .cancel (← field fields "node")
    | _ => none

end Statechart.Wire
