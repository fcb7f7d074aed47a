import Statechart.Proofs.EditorTurns
import Statechart.Proofs.Trace

/-! The kinds of turns an editor takes, what of its mode can be seen, and its traces as sequences of
turns. -/
namespace Statechart.Editor

variable {T : Type}

/-- The trigger finds the editor without an answer to it. -/
def Mode.Ignores (mode : Mode) (trigger : Trigger (EditorEvent T)) : Prop :=
  ∀ dirty idle, mode = .editable dirty idle →
    (∀ content, trigger ≠ .event (.contentUpdated content)) ∧
      (dirty = true → trigger ≠ .event .localLockReleased)

/-- What a turn from a mode can be. -/
inductive Moves (isDirty : DirtyTest T) (idleDelay : Option Duration) (context : EditorContext T) :
    Mode → Trigger (EditorEvent T) → Turn T → Prop where
  | stays {mode : Mode} {trigger : Trigger (EditorEvent T)} :
      mode.Ignores trigger → Moves isDirty idleDelay context mode trigger (stay mode context)
  | accepts {idle : Bool} {content : T} : isDirty context.content content ≠ .dirty →
      Moves isDirty idleDelay context (.editable false idle) (.event (.contentUpdated content))
        { mode := .editable false idle
          context := ⟨some content⟩
          fired := [.assign "updateContent"]
          faults := judgementFaults (isDirty context.content content) }
  | soils {dirty idle : Bool} {content : T} :
      dirty = true ∨ isDirty context.content content = .dirty →
      Moves isDirty idleDelay context (.editable dirty idle) (.event (.contentUpdated content))
        (soil idleDelay (departures dirty idle idleDelay) content)
  | resets {idle : Bool} :
      Moves isDirty idleDelay context (.editable true idle) (.event .localLockReleased)
        (openUp idleDelay (departures true idle idleDelay))
  | tires {dirty : Bool} : idleDelay.isSome = true →
      Moves isDirty idleDelay context (.editable dirty false) (.after (timedState dirty))
        { mode := .editable dirty true
          context
          fired := [.cancel (timedState dirty), .run "notifyIdle"] }
  | closes {dirty idle locked denied : Bool} {event : EditorEvent T} : event ≠ .localLockReleased →
      Moves isDirty idleDelay context (.editable dirty idle) (.event event)
        (closeDown (departures dirty idle idleDelay) locked denied context)
  | shifts {locked denied locked' denied' : Bool} {event : EditorEvent T} :
      Moves isDirty idleDelay context (.uneditable locked denied) (.event event)
        { mode := .uneditable locked' denied', context, fired := [] }
  | opens {locked denied : Bool} {event : EditorEvent T} :
      Moves isDirty idleDelay context (.uneditable locked denied) (.event event)
        (openUp idleDelay [])

variable (isDirty : DirtyTest T) (idleDelay : Option Duration) (context : EditorContext T)

theorem moves_after (mode : Mode) (state : Path) :
    Moves isDirty idleDelay context mode (.after state)
      (turn isDirty idleDelay context mode (.after state)) := by
  have hquiet : mode.Ignores (.after state : Trigger (EditorEvent T)) := fun _ _ _ => by simp
  rcases mode with ⟨dirty, idle⟩ | ⟨_ | _, _ | _⟩
  · by_cases hcount : (Mode.editable dirty idle).counting idleDelay.isSome = some state
    · rcases idleDelay with _ | delay <;> cases idle <;> cases hcount
      simpa [turn, Mode.counting] using Moves.tires rfl
    · simpa [turn, hcount] using Moves.stays hquiet
  all_goals exact .stays hquiet

theorem moves_turn (mode : Mode) (trigger : Trigger (EditorEvent T)) :
    Moves isDirty idleDelay context mode trigger (turn isDirty idleDelay context mode trigger) := by
  rcases trigger with _ | event | state
  · rcases mode with ⟨_ | _, _⟩ | ⟨_ | _, _ | _⟩ <;> exact .stays fun _ _ _ => by simp
  · cases event with
    | contentUpdated content =>
      rcases mode with ⟨_ | _, idle⟩ | ⟨locked, denied⟩
      · by_cases hj : isDirty context.content content = .dirty
        · simpa [turn, hj] using Moves.soils (.inr hj)
        · simpa [turn] using Moves.accepts hj
      · exact .soils (.inl rfl)
      · cases locked <;> cases denied <;> exact .stays fun _ _ h => by simp at h
    | localLockReleased =>
      rcases mode with ⟨_ | _, idle⟩ | ⟨_ | _, _ | _⟩
      · exact .stays fun _ _ h => by simp_all
      · exact .resets
      all_goals exact .stays fun _ _ h => by simp at h
    | foreignLockAdded =>
      rcases mode with ⟨_ | _, idle⟩ | ⟨_ | _, denied⟩
      · exact .closes (by simp)
      · exact .closes (by simp)
      · exact .shifts
      · cases denied <;> exact .stays fun _ _ h => by simp at h
    | accessDenied =>
      rcases mode with ⟨_ | _, idle⟩ | ⟨locked, _ | _⟩
      · exact .closes (by simp)
      · exact .closes (by simp)
      · cases locked <;> exact .shifts
      · cases locked <;> exact .stays fun _ _ h => by simp at h
    | foreignLockReleased =>
      rcases mode with ⟨_ | _, idle⟩ | ⟨_ | _, denied⟩
      · exact .stays fun _ _ h => by simp
      · exact .stays fun _ _ h => by simp
      · cases denied <;> exact .stays fun _ _ h => by simp at h
      · cases denied
        · exact .opens
        · exact .shifts
    | accessGranted =>
      rcases mode with ⟨_ | _, idle⟩ | ⟨locked, _ | _⟩
      · exact .stays fun _ _ h => by simp
      · exact .stays fun _ _ h => by simp
      · cases locked <;> exact .stays fun _ _ h => by simp at h
      · cases locked
        · exact .opens
        · exact .shifts
  · exact moves_after isDirty idleDelay context mode state

namespace Mode

def isEditable : Mode → Bool
  | .editable _ _ => true
  | .uneditable _ _ => false

def isSoiled : Mode → Bool
  | .editable dirty _ => dirty
  | .uneditable _ _ => false

theorem leaves_editable (mode : Mode) (timed : Bool) :
    (mode.leaves timed).any (Path.contains ⟨"editable"⟩) = mode.isEditable := by
  revert timed
  rcases mode with ⟨_ | _, _ | _⟩ | ⟨_ | _, _ | _⟩ <;> decide

theorem leaves_uneditable (mode : Mode) (timed : Bool) :
    (mode.leaves timed).any (Path.contains ⟨"uneditable"⟩) = !mode.isEditable := by
  revert timed
  rcases mode with ⟨_ | _, _ | _⟩ | ⟨_ | _, _ | _⟩ <;> decide

theorem leaves_soiled (mode : Mode) (timed : Bool) :
    (mode.leaves timed).any (Path.contains ⟨"editable.dirty"⟩) = mode.isSoiled := by
  revert timed
  rcases mode with ⟨_ | _, _ | _⟩ | ⟨_ | _, _ | _⟩ <;> decide

end Mode

theorem configurationOf_active (mode : Mode) :
    (machine isDirty idleDelay).configurationOf (mode.active idleDelay.isSome) =
      .ofLeaves (mode.leaves idleDelay.isSome) := by
  rw [Chart.configurationOf]
  congr 1
  rcases idleDelay with _ | delay
  · rcases mode with ⟨_ | _, _⟩ | ⟨_ | _, _ | _⟩ <;> rfl
  · rcases mode with ⟨_ | _, _ | _⟩ | ⟨_ | _, _ | _⟩ <;> rfl

variable {isDirty idleDelay}

/-- The snapshot is that of an editor in the mode. -/
def Shows (isDirty : DirtyTest T) (idleDelay : Option Duration) (s : Snapshot (EditorContext T))
    (mode : Mode) : Prop :=
  s.configuration = (machine isDirty idleDelay).configurationOf (mode.active idleDelay.isSome)

namespace Shows

variable {s : Snapshot (EditorContext T)} {mode : Mode}

theorem isActive (hs : Shows isDirty idleDelay s mode) (p : Path) :
    s.configuration.isActive p = (mode.leaves idleDelay.isSome).any p.contains := by
  rw [hs, isActive_active]

theorem editable (hs : Shows isDirty idleDelay s mode) :
    s.configuration.isActive ⟨"editable"⟩ = mode.isEditable := by
  rw [hs.isActive, mode.leaves_editable]

theorem uneditable (hs : Shows isDirty idleDelay s mode) :
    s.configuration.isActive ⟨"uneditable"⟩ = !mode.isEditable := by
  rw [hs.isActive, mode.leaves_uneditable]

theorem soiled (hs : Shows isDirty idleDelay s mode) :
    s.configuration.isActive ⟨"editable.dirty"⟩ = mode.isSoiled := by
  rw [hs.isActive, mode.leaves_soiled]

end Shows

theorem initial_turn (isDirty : DirtyTest T) (idleDelay : Option Duration) :
    (machine isDirty idleDelay).initial =
      (openUp idleDelay []).snapshot isDirty idleDelay "init" := by
  rcases idleDelay with _ | delay <;> cbv

abbrev EditorStride (T : Type) := Stride (EditorContext T) (EditorEvent T)

/-- What holds at the start and is kept by every turn holds on every trace. -/
theorem trace_induction {P : List (EditorStride T) → Mode → Snapshot (EditorContext T) → Prop}
    (start : P [] (.editable false false) ((openUp idleDelay []).snapshot isDirty idleDelay "init"))
    (step : ∀ {strides s mode} trigger, Shows isDirty idleDelay s mode → P strides mode s →
      let next := turn isDirty idleDelay s.context mode trigger
      let after := next.snapshot isDirty idleDelay trigger.text
      P (strides ++ [⟨s, trigger, after⟩]) next.mode after)
    {strides : List (EditorStride T)} {s : Snapshot (EditorContext T)}
    (trace : (machine isDirty idleDelay).Trace strides s) :
    ∃ mode, Shows isDirty idleDelay s mode ∧ P strides mode s := by
  induction trace with
  | start => exact ⟨_, initial_configuration isDirty idleDelay, initial_turn isDirty idleDelay ▸ start⟩
  | @step strides s next trigger _ h ih =>
    obtain ⟨mode, hshows, hp⟩ := ih
    rw [transition_turn hshows] at h
    obtain rfl := Except.ok.inj h
    exact ⟨_, rfl, step trigger hshows hp⟩

end Statechart.Editor
