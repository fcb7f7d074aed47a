import Mathlib.Data.List.Induction
import Statechart.Proofs.EditorTurns

/-! An editor follows the permissions of its user: the last word on the foreign lock and the last
word on the access alone tell whether it is editable, and if not, why. -/
namespace Statechart.Editor

variable {T : Type}

/-- What a trigger says about the foreign lock, if it is about it. -/
def locks? : Trigger (EditorEvent T) → Option Bool
  | .event .foreignLockAdded => some true
  | .event .foreignLockReleased => some false
  | _ => none

/-- What a trigger says about the access, if it is about it. -/
def denies? : Trigger (EditorEvent T) → Option Bool
  | .event .accessDenied => some true
  | .event .accessGranted => some false
  | _ => none

/-- The last lock event is the coming of a foreign lock. -/
def Locked (triggers : List (Trigger (EditorEvent T))) : Prop :=
  (triggers.filterMap locks?).getLast? = some true

def Denied (triggers : List (Trigger (EditorEvent T))) : Prop :=
  (triggers.filterMap denies?).getLast? = some true

/-- The two bits that the last word on each matter leaves. -/
structure Permissions where
  locked : Bool
  denied : Bool
deriving DecidableEq, Repr

namespace Permissions

def free : Permissions := ⟨false, false⟩

def after (p : Permissions) (trigger : Trigger (EditorEvent T)) : Permissions where
  locked := (locks? trigger).getD p.locked
  denied := (denies? trigger).getD p.denied

/-- The bits tell the last word of each kind. -/
structure Tell (p : Permissions) (triggers : List (Trigger (EditorEvent T))) : Prop where
  locked : p.locked = true ↔ Locked triggers
  denied : p.denied = true ↔ Denied triggers

theorem free_tell : free.Tell ([] : List (Trigger (EditorEvent T))) := by
  constructor <;> simp [free, Locked, Denied]

theorem getD_word {word? : Trigger (EditorEvent T) → Option Bool} {bit : Bool}
    {triggers : List (Trigger (EditorEvent T))} (trigger : Trigger (EditorEvent T))
    (h : bit = true ↔ (triggers.filterMap word?).getLast? = some true) :
    (word? trigger).getD bit = true ↔
      ((triggers ++ [trigger]).filterMap word?).getLast? = some true := by
  rw [List.filterMap_append]
  cases hword : word? trigger with
  | none => simpa [hword] using h
  | some word => simp [hword]

theorem Tell.concat {p : Permissions} {triggers : List (Trigger (EditorEvent T))}
    (h : p.Tell triggers) (trigger : Trigger (EditorEvent T)) :
    (p.after trigger).Tell (triggers ++ [trigger]) :=
  ⟨getD_word trigger h.locked, getD_word trigger h.denied⟩

theorem Tell.free_iff {p : Permissions} {triggers : List (Trigger (EditorEvent T))}
    (h : p.Tell triggers) : p = free ↔ ¬Locked triggers ∧ ¬Denied triggers := by
  rw [← h.locked, ← h.denied]
  rcases p with ⟨_ | _, _ | _⟩ <;> simp [free]

end Permissions

namespace Mode

def permissions : Mode → Permissions
  | .editable _ _ => .free
  | .uneditable locked denied => ⟨locked, denied⟩

def reasoned : Mode → Bool
  | .editable _ _ => true
  | .uneditable locked denied => locked || denied

theorem editable_iff {mode : Mode} (h : mode.reasoned = true) (timed : Bool) :
    (mode.leaves timed).any (Path.contains ⟨"editable"⟩) = true ↔ mode.permissions = .free := by
  revert timed h
  rcases mode with ⟨_ | _, _ | _⟩ | ⟨_ | _, _ | _⟩ <;> decide

theorem uneditable_leaves {mode : Mode} (h : mode.permissions ≠ .free) (timed : Bool) :
    (mode.leaves timed).any (Path.contains ⟨"uneditable"⟩) = true ∧
    (mode.leaves timed).any (Path.contains ⟨"uneditable.lock.locked"⟩) = mode.permissions.locked ∧
    (mode.leaves timed).any (Path.contains ⟨"uneditable.lock.unlocked"⟩) =
      !mode.permissions.locked ∧
    (mode.leaves timed).any (Path.contains ⟨"uneditable.access.denied"⟩) =
      mode.permissions.denied ∧
    (mode.leaves timed).any (Path.contains ⟨"uneditable.access.granted"⟩) =
      !mode.permissions.denied := by
  revert timed
  rcases mode with ⟨dirty, idle⟩ | ⟨_ | _, _ | _⟩ <;> first | exact absurd rfl h | decide

end Mode

theorem turn_permissions (isDirty : DirtyTest T) (idleDelay : Option Duration)
    (context : EditorContext T) (mode : Mode) (trigger : Trigger (EditorEvent T)) :
    (turn isDirty idleDelay context mode trigger).mode.permissions =
      mode.permissions.after trigger := by
  rcases mode with ⟨_ | _, idle⟩ | ⟨_ | _, _ | _⟩ <;>
    rcases trigger with _ | (_ | _ | content | _ | _ | _) | state <;> try rfl
  all_goals simp only [turn]; split <;> rfl

theorem turn_reasoned (isDirty : DirtyTest T) (idleDelay : Option Duration)
    (context : EditorContext T) {mode : Mode} (h : mode.reasoned = true)
    (trigger : Trigger (EditorEvent T)) :
    (turn isDirty idleDelay context mode trigger).mode.reasoned = true := by
  rcases mode with ⟨_ | _, idle⟩ | ⟨_ | _, _ | _⟩ <;>
    rcases trigger with _ | (_ | _ | content | _ | _ | _) | state <;>
      first | rfl | exact h | skip
  all_goals simp only [turn]; split <;> rfl

/-- After any triggers the editor is in a mode with the permissions that the triggers tell. -/
theorem run_mode (isDirty : DirtyTest T) (idleDelay : Option Duration)
    (triggers : List (Trigger (EditorEvent T))) :
    ∃ (s : Snapshot (EditorContext T)) (mode : Mode),
      triggers.foldlM (machine isDirty idleDelay).transition (machine isDirty idleDelay).initial =
        .ok s ∧
      s.configuration =
        (machine isDirty idleDelay).configurationOf (mode.active idleDelay.isSome) ∧
      mode.reasoned = true ∧ mode.permissions.Tell triggers := by
  induction triggers using List.reverseRecOn with
  | nil =>
    exact ⟨_, .editable false false, rfl, initial_configuration isDirty idleDelay, rfl,
      Permissions.free_tell⟩
  | append_singleton triggers trigger ih =>
    obtain ⟨s, mode, hrun, hs, hreason, htell⟩ := ih
    let next := turn isDirty idleDelay s.context mode trigger
    refine ⟨next.snapshot isDirty idleDelay trigger.text, next.mode, ?_, rfl,
      turn_reasoned isDirty idleDelay s.context hreason trigger, ?_⟩
    · rw [List.foldlM_append, hrun]
      exact (bind_pure _).trans (transition_turn hs trigger)
    · rw [turn_permissions]
      exact htell.concat trigger

/-- Whatever the dirtiness test, the idle delay and the triggers so far: the editor is editable
just when the last lock event brought no foreign lock and the last access event denied no access,
and an uneditable editor shows which of the two it is in the regions of its lock and access. -/
theorem permissions_decide (isDirty : DirtyTest T) (idleDelay : Option Duration) :
    ∃ m, (spec isDirty idleDelay).build = .ok m ∧
      ∀ triggers : List (Trigger (EditorEvent T)), ∃ s,
        triggers.foldlM m.transition m.initial = .ok s ∧
        (s.configuration.isActive ⟨"editable"⟩ = true ↔ ¬Locked triggers ∧ ¬Denied triggers) ∧
        (Locked triggers ∨ Denied triggers →
          s.configuration.isActive ⟨"uneditable"⟩ = true ∧
          (s.configuration.isActive ⟨"uneditable.lock.locked"⟩ = true ↔ Locked triggers) ∧
          (s.configuration.isActive ⟨"uneditable.lock.unlocked"⟩ = true ↔ ¬Locked triggers) ∧
          (s.configuration.isActive ⟨"uneditable.access.denied"⟩ = true ↔ Denied triggers) ∧
          (s.configuration.isActive ⟨"uneditable.access.granted"⟩ = true ↔
            ¬Denied triggers)) := by
  refine ⟨machine isDirty idleDelay, build_spec isDirty idleDelay, fun triggers => ?_⟩
  obtain ⟨s, mode, hrun, hs, hreason, htell⟩ := run_mode isDirty idleDelay triggers
  refine ⟨s, hrun, ?_, fun hlost => ?_⟩
  · rw [hs, isActive_active, mode.editable_iff hreason, htell.free_iff]
  · have hnotfree : mode.permissions ≠ .free := by
      rw [Ne, htell.free_iff]
      exact fun hfree => hlost.elim hfree.1 hfree.2
    obtain ⟨huneditable, hlocked, hunlocked, hdenied, hgranted⟩ :=
      mode.uneditable_leaves hnotfree idleDelay.isSome
    rw [hs]
    simp only [isActive_active]
    rw [huneditable, hlocked, hunlocked, hdenied, hgranted, ← htell.locked, ← htell.denied]
    simp

end Statechart.Editor
