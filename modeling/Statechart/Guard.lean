import Statechart.Configuration
import Statechart.Trigger

/-! Guards decide whether a transition is taken. They see the context, the trigger and the
configuration as they were before the step, and may fail to give an answer. -/
namespace Statechart

structure GuardView (C E : Type) where
  context : C
  trigger : Trigger E
  configuration : Configuration

def GuardView.inState {C E : Type} (view : GuardView C E) (path : Path) : Bool :=
  view.configuration.isActive path

structure GuardError where
  message : String
deriving DecidableEq, Repr

/-- The end of a guard's evaluation; a crash may come without a text. -/
inductive Verdict where
  | holds
  | fails
  | error (e : GuardError)
  | crashed (message : Option String)
deriving DecidableEq, Repr

namespace Verdict

def ofBool : Bool → Verdict
  | true => .holds
  | false => .fails

def outcome : Verdict → Except GuardError Bool
  | .holds => .ok true
  | .fails => .ok false
  | .error e => .error e
  | .crashed (some message) => .error ⟨"guard panicked: " ++ message⟩
  | .crashed none => .error ⟨"guard panicked"⟩

end Verdict

structure Guard (C E : Type) where
  judge : GuardView C E → Verdict

namespace Guard

variable {C E : Type}

def check (g : Guard C E) (view : GuardView C E) : Except GuardError Bool :=
  (g.judge view).outcome

def inState (path : Path) : Guard C E := ⟨fun view => .ofBool (view.inState path)⟩

theorem check_inState (path : Path) (view : GuardView C E) :
    (inState path : Guard C E).check view = .ok (view.inState path) := by
  unfold check inState
  dsimp only
  cases view.inState path <;> rfl

/-- Asks the guard only while the state is active. -/
def within (path : Path) (g : Guard C E) : Guard C E where
  judge view := if view.inState path then g.judge view else .fails

theorem check_within (path : Path) (g : Guard C E) (view : GuardView C E) :
    (g.within path).check view = if view.inState path then g.check view else .ok false := by
  unfold check within
  dsimp only
  split <;> rfl

end Guard
end Statechart
