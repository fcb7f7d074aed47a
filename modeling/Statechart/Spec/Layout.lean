import Statechart.Chart
import Statechart.Spec

/-! The layout of a declared tree: its states in document order, numbered from 0. -/
namespace Statechart

/-- A state with its place in the tree. Ancestors are listed innermost first. -/
structure Entry (C E : Type) where
  id : NodeId
  path : Path
  ancestors : List NodeId
  children : List NodeId
  spec : StateSpec C E

namespace StateSpec

variable {C E : Type}

mutual
def size : StateSpec C E → Nat
  | ⟨_, _, _, _, _, _, _, states⟩ => 1 + sizeAll states

def sizeAll : List (StateSpec C E) → Nat
  | [] => 0
  | s :: rest => s.size + sizeAll rest
end

/-- The numbers of siblings, the first of which is numbered `next`. -/
def childIds (next : NodeId) : List (StateSpec C E) → List NodeId
  | [] => []
  | s :: rest => next :: childIds (next + s.size) rest

mutual
def layout (ancestors : List NodeId) (path : Path) (id : NodeId) :
    StateSpec C E → List (Entry C E)
  | ⟨key, shape, initial, entry, exit, on, after, states⟩ =>
    ⟨id, path, ancestors, childIds (id + 1) states,
      ⟨key, shape, initial, entry, exit, on, after, states⟩⟩ ::
      layoutAll (id :: ancestors) path (id + 1) states

def layoutAll (ancestors : List NodeId) (path : Path) (next : NodeId) :
    List (StateSpec C E) → List (Entry C E)
  | [] => []
  | s :: rest =>
    layout ancestors (path.child s.key) next s ++
      layoutAll ancestors path (next + s.size) rest
end

mutual
theorem length_layout (ancestors : List NodeId) (path : Path) (id : NodeId) :
    ∀ s : StateSpec C E, (s.layout ancestors path id).length = s.size
  | ⟨key, shape, initial, entry, exit, on, after, states⟩ => by
    rw [layout, size, List.length_cons, length_layoutAll, Nat.add_comm]

theorem length_layoutAll (ancestors : List NodeId) (path : Path) (next : NodeId) :
    ∀ ss : List (StateSpec C E), (layoutAll ancestors path next ss).length = sizeAll ss
  | [] => by rw [layoutAll, sizeAll, List.length_nil]
  | s :: rest => by
    rw [layoutAll, sizeAll, List.length_append, length_layout, length_layoutAll]
end

end StateSpec

def ChartSpec.entries {C E : Type} (spec : ChartSpec C E) : List (Entry C E) :=
  spec.root.layout [] .root 0

/-- The number of the first state with that path. -/
def idAt {C E : Type} (entries : List (Entry C E)) (path : Path) : Option NodeId :=
  (entries.find? (·.path == path)).map (·.id)

end Statechart
