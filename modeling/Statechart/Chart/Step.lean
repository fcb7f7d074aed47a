import Statechart.Chart.Activity

/-! Steps of a chart. A step selects at most one transition for each active leaf, with guards that
see the state before the step, and takes the selected transitions one after another in document
order: exits from the innermost node out, the transition's own actions, entries from the outermost
node in. -/
namespace Statechart

structure Progress (C : Type) where
  active : List NodeId
  context : C
  fired : List Fired

namespace Progress

variable {C E : Type}

def fire (p : Progress C) (f : Fired) : Progress C := { p with fired := p.fired ++ [f] }

def act (trigger : Trigger E) (p : Progress C) : Action C E → Progress C
  | .run name => p.fire (.run name)
  | .assign name update => { p with context := update p.context trigger }.fire (.assign name)

def perform (trigger : Trigger E) (p : Progress C) (actions : List (Action C E)) : Progress C :=
  actions.foldl (act trigger) p

end Progress

namespace Chart

variable {C E : Type}

def enter (m : Chart C E) (trigger : Trigger E) (p : Progress C) (id : NodeId) : Progress C :=
  match m.node? id with
  | none => p
  | some n =>
    let p := p.perform trigger n.entry
    match n.after with
    | none => p
    | some d => p.fire (.schedule n.path d.delay)

def exit (m : Chart C E) (trigger : Trigger E) (p : Progress C) (id : NodeId) : Progress C :=
  match m.node? id with
  | none => p
  | some n =>
    let p := if n.after.isSome then p.fire (.cancel n.path) else p
    p.perform trigger n.exit

/-- The node below which a transition exits and enters. -/
def domain (m : Chart C E) (source target : NodeId) (internal : Bool) : NodeId :=
  if internal && m.isCompound source && m.isAncestor source target then source
  else ((m.ancestors source).find? fun id => m.isCompound id && m.isAncestor id target).getD root

/-- Takes a selected transition, unless its source is no longer active. -/
def take (m : Chart C E) (trigger : Trigger E) (p : Progress C)
    (selected : NodeId × Candidate C E) : Progress C :=
  let (source, candidate) := selected
  if !p.active.contains source then p
  else if candidate.internal && candidate.target == source then
    p.perform trigger candidate.actions
  else
    let domain := m.domain source candidate.target candidate.internal
    let exiting := p.active.filter (m.isAncestor domain)
    let entering := m.entrySet domain candidate.target
    let exited := exiting.reverse.foldl (m.exit trigger) p
    let acted := exited.perform trigger candidate.actions
    let entered := entering.foldl (m.enter trigger) acted
    { entered with
      active := m.ids.filter fun id =>
        (p.active.contains id && !m.isAncestor domain id) || entering.contains id }

variable [Event E]

/-- The innermost node at or above a leaf that declares the trigger. -/
def source? (m : Chart C E) (trigger : Trigger E) (leaf : NodeId) : Option NodeId :=
  (leaf :: m.ancestors leaf).find? fun id =>
    (m.node? id).any fun n => !(n.declared trigger).isEmpty

/-- The nodes whose declarations apply, each once, by their first active leaf. -/
def sources (m : Chart C E) (trigger : Trigger E) (active : List NodeId) : List NodeId :=
  ((active.filter m.isAtomic).filterMap (m.source? trigger)).eraseDups

/-- The first candidate whose guard holds, and the faults of those before it. -/
def choose (view : GuardView C E) (source : Path) :
    List (Candidate C E) → Option (Candidate C E) × List GuardFault
  | [] => (none, [])
  | candidate :: rest =>
    match candidate.enabled view with
    | .ok true => (some candidate, [])
    | .ok false => choose view source rest
    | .error error =>
      let (chosen, faults) := choose view source rest
      (chosen, ⟨source, view.trigger.text, error⟩ :: faults)

def chooseAt (m : Chart C E) (view : GuardView C E) (id : NodeId) :
    Option (Candidate C E) × List GuardFault :=
  match m.node? id with
  | none => (none, [])
  | some n => choose view n.path (n.declared view.trigger)

def select (m : Chart C E) (view : GuardView C E) (active : List NodeId) :
    List (NodeId × Candidate C E) × List GuardFault :=
  let sources := m.sources view.trigger active
  (sources.filterMap fun id => (m.chooseAt view id).1.map (id, ·),
    sources.flatMap fun id => (m.chooseAt view id).2)

def initial (m : Chart C E) : Snapshot C :=
  let entered := m.defaults root
  let p := entered.foldl (m.enter .init) ⟨entered, m.context, []⟩
  { configuration := m.configurationOf entered
    context := p.context
    fired := p.fired
    changed := true
    faults := []
    trigger := (Trigger.init : Trigger E).text }

/-- The chart at rest in a named state, with defaults for all that the name leaves open. -/
def restingAt (m : Chart C E) (path : Path) : Except ChartError (Snapshot C) := do
  let target ← m.lookup path
  let entered := m.entrySet root target
  let active :=
    if target = root then m.defaults root
    else m.ids.filter fun id => id == root || entered.contains id
  return {
    configuration := m.configurationOf active
    context := m.context
    fired := []
    changed := false
    faults := []
    trigger := (Trigger.init : Trigger E).text }

/-- A step from a legal set of active nodes. -/
def step (m : Chart C E) (s : Snapshot C) (trigger : Trigger E) (active : List NodeId) :
    Snapshot C :=
  let (selected, faults) := m.select ⟨s.context, trigger, s.configuration⟩ active
  if selected.isEmpty then
    { s with fired := [], changed := false, faults := faults, trigger := trigger.text }
  else
    let p := selected.foldl (m.take trigger) ⟨active, s.context, []⟩
    { configuration := m.configurationOf p.active
      context := p.context
      fired := p.fired
      changed := true
      faults := faults
      trigger := trigger.text }

def transition (m : Chart C E) (s : Snapshot C) (trigger : Trigger E) :
    Except ChartError (Snapshot C) := do
  let active ← m.activeOf s.configuration
  if m.isLegal active then .ok (m.step s trigger active)
  else .error (.invalidConfiguration m.name s.configuration)

def transitionFrom (m : Chart C E) (path : Path) (trigger : Trigger E) :
    Except ChartError (Snapshot C) := do
  let s ← m.restingAt path
  m.transition s trigger

end Chart
end Statechart
