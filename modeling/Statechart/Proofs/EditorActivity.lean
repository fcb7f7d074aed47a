import Statechart.Proofs.EditorMoves

/-! An editor with an idle delay mirrors one without it: the same events lead to the same content,
the same faults, and the same calls but for those about the activity of the user, and what the ends
of delays do in between concerns that activity alone. -/
namespace Statechart.Editor

variable {T : Type}

/-- Whether it is about the activity of the user. -/
def isAboutActivity : Fired → Bool
  | .schedule .. | .cancel .. => true
  | .run name => name == "notifyActive" || name == "notifyIdle"
  | .assign _ => false

def withoutActivity (fired : List Fired) : List Fired := fired.filter (!isAboutActivity ·)

/-- A leaf that tells the activity is read as the state that it lies in. -/
def restLeaf (leaf : Path) : Path :=
  if leaf.key = "active" ∨ leaf.key = "idle" then leaf.parent.getD leaf else leaf

def atRest (c : Configuration) : Configuration := .ofLeaves (c.leaves.map restLeaf)

/-- The two editors are in the same state but for the activity. -/
structure Mirrors (timed untimed : Snapshot (EditorContext T)) : Prop where
  context : timed.context = untimed.context
  configuration : atRest timed.configuration = untimed.configuration

/-- The two editors have come to the same state by steps that are alike but for the activity. -/
structure MirrorsStep (timed untimed : Snapshot (EditorContext T)) : Prop
    extends Mirrors timed untimed where
  fired : withoutActivity timed.fired = untimed.fired
  changed : timed.changed = untimed.changed
  faults : timed.faults = untimed.faults

/-- The step concerned the activity alone. -/
structure Unseen (stride : EditorStride T) : Prop where
  context : stride.after.context = stride.before.context
  configuration : atRest stride.after.configuration = atRest stride.before.configuration
  fired : withoutActivity stride.after.fired = []

def Mode.untimed : Mode → Mode
  | .editable dirty _ => .editable dirty false
  | .uneditable locked denied => .uneditable locked denied

def Turn.untimed (t : Turn T) : Turn T :=
  { t with mode := t.mode.untimed, fired := withoutActivity t.fired }

theorem turn_untimed (isDirty : DirtyTest T) (delay : Duration) (context : EditorContext T)
    (mode : Mode) (event : EditorEvent T) :
    turn isDirty none context mode.untimed (.event event) =
      (turn isDirty (some delay) context mode (.event event)).untimed := by
  cases event with
  | contentUpdated content =>
    rcases mode with ⟨_ | _, _ | _⟩ | ⟨_ | _, _ | _⟩ <;> try rfl
    all_goals
      simp only [turn, Mode.untimed]
      split <;> rfl
  | localLockReleased => rcases mode with ⟨_ | _, _ | _⟩ | ⟨_ | _, _ | _⟩ <;> rfl
  | foreignLockAdded => rcases mode with ⟨_ | _, _ | _⟩ | ⟨_ | _, _ | _⟩ <;> rfl
  | foreignLockReleased => rcases mode with ⟨_ | _, _ | _⟩ | ⟨_ | _, _ | _⟩ <;> rfl
  | accessDenied => rcases mode with ⟨_ | _, _ | _⟩ | ⟨_ | _, _ | _⟩ <;> rfl
  | accessGranted => rcases mode with ⟨_ | _, _ | _⟩ | ⟨_ | _, _ | _⟩ <;> rfl

theorem atRest_leaves (mode : Mode) :
    atRest (.ofLeaves (mode.leaves true)) = .ofLeaves (mode.untimed.leaves false) := by
  rcases mode with ⟨_ | _, _ | _⟩ | ⟨_ | _, _ | _⟩ <;> decide +kernel

section

variable {isDirty : DirtyTest T} {delay : Duration} {s s' : Snapshot (EditorContext T)} {mode : Mode}

theorem atRest_shows (hs : Shows isDirty (some delay) s mode)
    (hs' : Shows isDirty none s' mode.untimed) : atRest s.configuration = s'.configuration := by
  rw [hs, hs', configurationOf_active, configurationOf_active]
  exact atRest_leaves mode

/-- A step that no event started concerns the activity alone. -/
theorem unseen_turn (hs : Shows isDirty (some delay) s mode) {trigger : Trigger (EditorEvent T)}
    (h : trigger.event? = none) :
    (turn isDirty (some delay) s.context mode trigger).mode.untimed = mode.untimed ∧
      Unseen ⟨s, trigger, (turn isDirty (some delay) s.context mode trigger).snapshot isDirty
        (some delay) trigger.text⟩ := by
  have hsame : ∀ {next : Turn T}, next.mode.untimed = mode.untimed →
      atRest (next.snapshot isDirty (some delay) trigger.text).configuration =
        atRest s.configuration := by
    intro next hmode
    rw [hs, Turn.snapshot, configurationOf_active, configurationOf_active]
    exact (atRest_leaves next.mode).trans (hmode ▸ (atRest_leaves mode).symm)
  generalize hnext : turn isDirty (some delay) s.context mode trigger = next
  have moves := hnext ▸ moves_turn isDirty (some delay) s.context mode trigger
  cases moves with
  | stays => exact ⟨rfl, rfl, hsame rfl, rfl⟩
  | tires => exact ⟨rfl, rfl, hsame rfl, rfl⟩
  | accepts | soils | resets | closes | shifts | opens => cases h

/-- The strides of an untimed editor that was given the events of a timed one. -/
structure Mirrored (isDirty : DirtyTest T) (mode : Mode) (strides : List (EditorStride T))
    (s : Snapshot (EditorContext T)) (strides' : List (EditorStride T))
    (s' : Snapshot (EditorContext T)) : Prop where
  trace : (machine isDirty none).Trace strides' s'
  shows : Shows isDirty none s' mode.untimed
  context : s.context = s'.context
  triggers : strides'.map (·.trigger) = (strides.map (·.trigger)).filter (·.event?.isSome)
  steps : List.Forall₂ (fun stride stride' => MirrorsStep stride.after stride'.after)
    (strides.filter (·.trigger.event?.isSome)) strides'
  unseen : ∀ stride ∈ strides, stride.trigger.event? = none → Unseen stride

variable {strides strides' : List (EditorStride T)}

theorem mirrored_start : Mirrored isDirty (.editable false false) []
    ((openUp (some delay) []).snapshot isDirty (some delay) "init") []
    (machine isDirty none).initial where
  trace := .start
  shows := initial_configuration isDirty none
  context := by rw [initial_turn]; rfl
  triggers := rfl
  steps := .nil
  unseen := by simp

theorem Mirrored.unseenStep (mirrored : Mirrored isDirty mode strides s strides' s')
    (hs : Shows isDirty (some delay) s mode) {trigger : Trigger (EditorEvent T)}
    (h : trigger.event? = none) :
    let next := turn isDirty (some delay) s.context mode trigger
    let after := next.snapshot isDirty (some delay) trigger.text
    Mirrored isDirty next.mode (strides ++ [⟨s, trigger, after⟩]) after strides' s' := by
  intro next after
  obtain ⟨hmode, hunseen⟩ := unseen_turn hs h
  exact {
    trace := mirrored.trace
    shows := hmode ▸ mirrored.shows
    context := hunseen.context.trans mirrored.context
    triggers := by simp [mirrored.triggers, h]
    steps := by simpa [h] using mirrored.steps
    unseen := by
      refine List.forall_mem_append.mpr ⟨mirrored.unseen, ?_⟩
      simpa [h] using hunseen }

theorem Mirrored.eventStep (mirrored : Mirrored isDirty mode strides s strides' s')
    (event : EditorEvent T) :
    let next := turn isDirty (some delay) s.context mode (.event event)
    let after := next.snapshot isDirty (some delay) (Trigger.text (.event event))
    let after' := next.untimed.snapshot isDirty none (Trigger.text (.event event))
    Mirrored isDirty next.mode (strides ++ [⟨s, .event event, after⟩]) after
      (strides' ++ [⟨s', .event event, after'⟩]) after' := by
  intro next after after'
  have hnext : Shows isDirty (some delay) after next.mode := rfl
  have hnext' : Shows isDirty none after' next.mode.untimed := rfl
  have htransition := transition_turn mirrored.shows (.event event)
  rw [← mirrored.context, turn_untimed isDirty delay] at htransition
  have hstep : MirrorsStep after after' := {
    context := rfl
    configuration := atRest_shows hnext hnext'
    fired := rfl
    changed := rfl
    faults := rfl }
  exact {
    trace := mirrored.trace.step htransition
    shows := hnext'
    context := rfl
    triggers := by simp [mirrored.triggers, Trigger.event?]
    steps := by
      rw [List.filter_append]
      exact List.rel_append mirrored.steps (.cons hstep .nil)
    unseen := by
      refine List.forall_mem_append.mpr ⟨mirrored.unseen, ?_⟩
      simp [Trigger.event?] }

theorem exists_mirrored (trace : (machine isDirty (some delay)).Trace strides s) :
    ∃ mode, Shows isDirty (some delay) s mode ∧
      ∃ strides' s', Mirrored isDirty mode strides s strides' s' := by
  refine trace_induction (P := fun strides mode s =>
    ∃ strides' s', Mirrored isDirty mode strides s strides' s') ⟨_, _, mirrored_start⟩ ?_ trace
  rintro strides s mode trigger hs ⟨strides', s', mirrored⟩
  cases h : trigger.event? with
  | none => exact ⟨_, _, mirrored.unseenStep hs h⟩
  | some event =>
    cases trigger with
    | event e => exact ⟨_, _, mirrored.eventStep e⟩
    | init | after state => cases h

end

/-- Give the same events to an editor with an idle delay, while it ends its delays in any way, and to
one without: each event leads both to the same state but for the activity, by steps that are alike
but for the activity, and in between the activity alone changes. -/
theorem idle_delay_unseen (isDirty : DirtyTest T) (delay : Duration) :
    ∃ timed untimed, (spec isDirty (some delay)).build = .ok timed ∧
      (spec isDirty none).build = .ok untimed ∧
      MirrorsStep timed.initial untimed.initial ∧
      ∀ triggers : List (Trigger (EditorEvent T)), ∃ strides s strides' s',
        timed.Trace strides s ∧ strides.map (·.trigger) = triggers ∧
        untimed.Trace strides' s' ∧
        strides'.map (·.trigger) = triggers.filter (·.event?.isSome) ∧
        Mirrors s s' ∧
        List.Forall₂ (fun stride stride' => MirrorsStep stride.after stride'.after)
          (strides.filter (·.trigger.event?.isSome)) strides' ∧
        ∀ stride ∈ strides, stride.trigger.event? = none → Unseen stride := by
  refine ⟨machine isDirty (some delay), machine isDirty none, build_spec isDirty (some delay),
    build_spec isDirty none, ?_, fun triggers => ?_⟩
  · have hs : Shows isDirty (some delay) (machine isDirty (some delay)).initial
        (.editable false false) := initial_configuration isDirty (some delay)
    have hrest := atRest_shows hs (initial_configuration isDirty none)
    rw [initial_turn, initial_turn] at hrest ⊢
    exact ⟨⟨rfl, hrest⟩, rfl, rfl, rfl⟩
  · obtain ⟨strides, s, trace, rfl⟩ :=
      (isTree_machine isDirty (some delay)).exists_trace triggers
    obtain ⟨mode, hs, strides', s', mirrored⟩ := exists_mirrored trace
    exact ⟨strides, s, strides', s', trace, rfl, mirrored.trace, mirrored.triggers,
      ⟨mirrored.context, atRest_shows hs mirrored.shows⟩, mirrored.steps, mirrored.unseen⟩

end Statechart.Editor
