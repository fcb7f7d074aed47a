import Statechart.Snapshot

/-! Charts: trees of states in document order. A node is known by its position, the root is 0, and
each node lists the nodes it lies in, innermost first. -/
namespace Statechart

abbrev NodeId := Nat

inductive Kind where
  | atomic
  | compound (initial : NodeId)
  | parallel
deriving DecidableEq, Repr

structure Candidate (C E : Type) where
  target : NodeId
  guard : Option (Guard C E)
  internal : Bool
  actions : List (Action C E)

/-- A candidate without a guard is always enabled. -/
def Candidate.enabled {C E : Type} (c : Candidate C E) (view : GuardView C E) :
    Except GuardError Bool :=
  match c.guard with
  | none => .ok true
  | some g => g.check view

structure Delayed (C E : Type) where
  delay : Duration
  candidate : Candidate C E

structure Node (C E : Type) where
  id : NodeId
  key : String
  path : Path
  kind : Kind
  ancestors : List NodeId
  children : List NodeId
  entry : List (Action C E)
  exit : List (Action C E)
  on : List (String × Candidate C E)
  after : Option (Delayed C E)

namespace Node

variable {C E : Type}

def parent (n : Node C E) : Option NodeId := n.ancestors.head?

def isAtomic (n : Node C E) : Bool := n.kind == .atomic

def isParallel (n : Node C E) : Bool := n.kind == .parallel

def isCompound (n : Node C E) : Bool := !n.isAtomic && !n.isParallel

def candidates (n : Node C E) (event : String) : List (Candidate C E) :=
  (n.on.filter (·.1 == event)).map (·.2)

def events (n : Node C E) : List String := (n.on.map (·.1)).eraseDups

/-- What the node itself declares for a trigger. -/
def declared [Event E] (n : Node C E) : Trigger E → List (Candidate C E)
  | .init => []
  | .event e => n.candidates (Event.typeName e)
  | .after state => if state = n.path then n.after.toList.map (·.candidate) else []

end Node

inductive ChartError where
  | unknownState (path : Path)
  | invalidConfiguration (chart : String) (configuration : Configuration)
deriving DecidableEq

def ChartError.message : ChartError → String
  | .unknownState path => "Unknown state '" ++ path.text ++ "'"
  | .invalidConfiguration chart configuration =>
    "Configuration " ++ configuration.text ++ " is not a valid configuration of machine '" ++
      chart ++ "'"

structure Chart (C E : Type) where
  name : String
  nodes : Array (Node C E)
  context : C

namespace Chart

variable {C E : Type}

def root : NodeId := 0

def ids (m : Chart C E) : List NodeId := List.range m.nodes.size

def node? (m : Chart C E) (id : NodeId) : Option (Node C E) := m.nodes[id]?

def find? (m : Chart C E) (path : Path) : Option (Node C E) := m.nodes.find? (·.path == path)

def lookup (m : Chart C E) (path : Path) : Except ChartError NodeId :=
  match m.find? path with
  | some n => .ok n.id
  | none => .error (.unknownState path)

def ancestors (m : Chart C E) (id : NodeId) : List NodeId :=
  match m.node? id with
  | some n => n.ancestors
  | none => []

def parent (m : Chart C E) (id : NodeId) : Option NodeId := (m.ancestors id).head?

def children (m : Chart C E) (id : NodeId) : List NodeId :=
  match m.node? id with
  | some n => n.children
  | none => []

def kind? (m : Chart C E) (id : NodeId) : Option Kind := (m.node? id).map (·.kind)

def isAtomic (m : Chart C E) (id : NodeId) : Bool := (m.node? id).any (·.isAtomic)

def isParallel (m : Chart C E) (id : NodeId) : Bool := (m.node? id).any (·.isParallel)

def isCompound (m : Chart C E) (id : NodeId) : Bool := (m.node? id).any (·.isCompound)

def isAncestor (m : Chart C E) (above id : NodeId) : Bool := (m.ancestors id).contains above

end Chart
end Statechart
