import Statechart.Journal
import Statechart.Time.Rfc3339
import Statechart.Wire.Chart

/-! Wire forms of moves and journals. A journal without a limit has no field for it. -/
namespace Statechart.Wire

instance : Wire Timestamp where
  encode t := .text (Rfc3339.text t)
  decode
    | .text s => Rfc3339.read? s
    | _ => none

instance : Wire Move where
  encode m :=
    .obj [("event", .text m.trigger), ("from", encode m.source), ("timestamp", encode m.time),
      ("to", encode m.target)]
  decode j := do
    let fields ← record? 4 ["from", "to", "event", "timestamp"] j
    return {
      source := ← field fields "from"
      target := ← field fields "to"
      trigger := ← field fields "event"
      time := ← field fields "timestamp" }

instance : Wire Journal where
  encode j :=
    .obj ((j.limit.map fun n => ("limit", encode n)).toList ++ [("records", encode j.moves)])
  decode j := do
    let fields ← record? 1 ["records", "limit"] j
    return {
      moves := ← field fields "records"
      limit := ← fieldOr fields "limit" none }

end Statechart.Wire
