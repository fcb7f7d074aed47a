import Statechart.Chart

/-! Sets of active nodes, as ascending lists: the nodes a configuration makes active, when such a set
is legal, and which nodes become active when one is entered. -/
namespace Statechart.Chart

variable {C E : Type}

/-- The nodes at and above the leaves of a configuration. -/
def activeOf (m : Chart C E) (c : Configuration) : Except ChartError (List NodeId) := do
  let leaves ← c.leaves.mapM m.lookup
  return m.ids.filter fun id => leaves.any fun leaf => leaf == id || m.isAncestor id leaf

def configurationOf (m : Chart C E) (active : List NodeId) : Configuration :=
  .ofLeaves (((active.filterMap m.node?).filter (·.isAtomic)).map (·.path))

/-- The children of a node that must be active with it: one of a compound node, all of a parallel
one. -/
def childrenLegal (m : Chart C E) (active : List NodeId) (id : NodeId) : Bool :=
  let count := ((m.children id).filter active.contains).length
  if m.isCompound id then count == 1
  else if m.isParallel id then count == (m.children id).length
  else true

def isLegal (m : Chart C E) (active : List NodeId) : Bool :=
  active.contains root &&
    active.all fun id => (m.parent id).all active.contains && m.childrenLegal active id

def isConsistent (m : Chart C E) (c : Configuration) : Bool :=
  match m.activeOf c with
  | .ok active => m.isLegal active
  | .error _ => false

/-- Whether entering the first node enters its child: any child of a parallel node, the initial one
of a compound node. -/
def isDefaultChild (m : Chart C E) (id child : NodeId) : Bool :=
  match m.kind? id with
  | some (.compound initial) => child == initial
  | some .parallel => true
  | _ => false

/-- Climbs from a node over the given links until it stands on a goal. -/
def reaches (link : NodeId → NodeId → Bool) (goal : NodeId → Bool) :
    NodeId → List NodeId → Bool
  | id, [] => goal id
  | id, above :: rest => goal id || (link above id && reaches link goal above rest)

/-- A node with all that entering it enters by default. -/
def defaults (m : Chart C E) (top : NodeId) : List NodeId :=
  m.ids.filter fun id => reaches m.isDefaultChild (· == top) id (m.ancestors id)

/-- The nodes from the target up to, but not including, the domain. -/
def lineage (m : Chart C E) (domain target : NodeId) : List NodeId :=
  target :: (m.ancestors target).takeWhile (· != domain)

/-- What becomes active below the domain when the target is entered: the nodes on the way to it, the
regions beside the way, and the defaults of all these. -/
def entrySet (m : Chart C E) (domain target : NodeId) : List NodeId :=
  let way := m.lineage domain target
  let link := fun id child =>
    if way.contains id && id != target then m.isParallel id else m.isDefaultChild id child
  m.ids.filter fun id => reaches link way.contains id (m.ancestors id)

end Statechart.Chart
