import Mathlib.Data.List.Induction
import Statechart.Proofs.Run

/-! Traces: the steps that a chart takes from its initial state, in order. A built chart has a trace
for any triggers, as it never refuses one. -/
namespace Statechart

variable {C E : Type}

/-- A step that was taken, between the snapshot before it and the one it led to. -/
structure Stride (C E : Type) where
  before : Snapshot C
  trigger : Trigger E
  after : Snapshot C

namespace Chart

variable [Event E]

/-- The strides of a chart from its initial snapshot to another, the earliest first. -/
inductive Trace (m : Chart C E) : List (Stride C E) → Snapshot C → Prop where
  | start : Trace m [] m.initial
  | step {strides : List (Stride C E)} {s next : Snapshot C} {trigger : Trigger E} :
      Trace m strides s → m.transition s trigger = .ok next →
      Trace m (strides ++ [⟨s, trigger, next⟩]) next

variable {m : Chart C E}

theorem Trace.run {strides : List (Stride C E)} {s : Snapshot C} (trace : m.Trace strides s) :
    m.Run s := by
  induction trace with
  | start => exact .initial
  | step _ h ih => exact .step _ ih h

theorem IsTree.exists_trace (tree : m.IsTree) (triggers : List (Trigger E)) :
    ∃ strides s, m.Trace strides s ∧ strides.map (·.trigger) = triggers := by
  induction triggers using List.reverseRecOn with
  | nil => exact ⟨[], m.initial, .start, rfl⟩
  | append_singleton triggers trigger ih =>
    obtain ⟨strides, s, trace, rfl⟩ := ih
    obtain ⟨active, settled⟩ := tree.settled_run trace.run
    have h := tree.transition_settled settled trigger
    exact ⟨_, _, trace.step h, by simp⟩

end Chart
end Statechart
