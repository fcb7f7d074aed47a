import Statechart.Proofs.Calls
import Statechart.Proofs.EditorMoves

/-! Whoever sees only the calls that an editor makes knows the state it is in, and the content that
is dirty. -/
namespace Statechart.Editor

variable {T C : Type}

/-- The last of the calls that bears one of the names. -/
def lastCall (names : List String) (calls : List (String × C)) : Option (String × C) :=
  (calls.filter fun call => names.contains call.1).getLast?

/-- The last of the names that a step asks to call. -/
def lastRun (names : List String) (fired : List Fired) : Option String :=
  ((Handler.runNames fired).filter names.contains).getLast?

theorem lastCall_append (names : List String) (calls : List (String × C)) (s : Snapshot C) :
    lastCall names (calls ++ s.calls) =
      ((lastRun names s.fired).map (·, s.context)).or (lastCall names calls) := by
  have hstep : lastCall names s.calls = (lastRun names s.fired).map (·, s.context) := by
    rw [lastCall, Snapshot.calls, List.filter_map, List.getLast?_map]
    rfl
  rw [← hstep]
  simp only [lastCall, List.filter_append, List.getLast?_append]

theorem lastCall_append_name (names : List String) (calls : List (String × C)) (s : Snapshot C) :
    (lastCall names (calls ++ s.calls)).map (·.1) =
      (lastRun names s.fired).or ((lastCall names calls).map (·.1)) := by
  rw [lastCall_append]
  cases lastRun names s.fired <;> rfl

theorem runNames_append (fired fired' : List Fired) :
    Handler.runNames (fired ++ fired') = Handler.runNames fired ++ Handler.runNames fired' :=
  List.filterMap_append ..

@[simp] theorem runNames_departures (dirty idle : Bool) (idleDelay : Option Duration) :
    Handler.runNames (departures dirty idle idleDelay) = [] := by
  unfold departures
  split <;> rfl

/-- What is called when the user comes to be active. -/
def activeNames (idleDelay : Option Duration) : List String :=
  if idleDelay.isSome then ["notifyActive"] else []

theorem runNames_arrivals (dirty : Bool) (idleDelay : Option Duration) :
    Handler.runNames (arrivals dirty idleDelay) = activeNames idleDelay := by
  cases idleDelay <;> rfl

theorem runNames_openUp (idleDelay : Option Duration) {before : List Fired}
    (h : Handler.runNames before = []) :
    Handler.runNames (openUp (T := T) idleDelay before).fired =
      "notifyEditable" :: "notifyResetEditor" :: activeNames idleDelay := by
  rw [openUp, runNames_append, runNames_append, h, runNames_arrivals]
  rfl

theorem runNames_soil (idleDelay : Option Duration) (dirty idle : Bool) (content : T) :
    Handler.runNames (soil idleDelay (departures dirty idle idleDelay) content).fired =
      "notifyContentDirty" :: activeNames idleDelay := by
  rw [soil, runNames_append, runNames_append, runNames_departures, runNames_arrivals]
  rfl

theorem runNames_closeDown (idleDelay : Option Duration) (dirty idle locked denied : Bool)
    (context : EditorContext T) :
    Handler.runNames (closeDown (departures dirty idle idleDelay) locked denied context).fired =
      ["notifyUneditable", "notifyResetEditor"] := by
  rw [closeDown, runNames_append, runNames_departures]
  rfl

/-- What the calls so far tell of an editor in a mode. -/
structure Tell (idleDelay : Option Duration) (calls : List (String × EditorContext T))
    (context : EditorContext T) (mode : Mode) : Prop where
  editable : (lastCall ["notifyEditable", "notifyUneditable"] calls).map (·.1) =
    some (if mode.isEditable then "notifyEditable" else "notifyUneditable")
  soiled : (lastCall ["notifyResetEditor", "notifyContentDirty"] calls).map (·.1) =
    some (if mode.isSoiled then "notifyContentDirty" else "notifyResetEditor")
  content : mode.isSoiled = true → ∃ content, context = ⟨some content⟩ ∧
    lastCall ["notifyResetEditor", "notifyContentDirty"] calls =
      some ("notifyContentDirty", ⟨some content⟩)
  activity : ∀ dirty idle, mode = .editable dirty idle → idleDelay.isSome = true →
    (lastCall ["notifyActive", "notifyIdle"] calls).map (·.1) =
      some (if idle then "notifyIdle" else "notifyActive")

section

variable {isDirty : DirtyTest T} {idleDelay : Option Duration} {context : EditorContext T}
  {calls : List (String × EditorContext T)} {mode : Mode} {trigger : Trigger (EditorEvent T)}
  {next : Turn T}

theorem tell_openUp {before : List Fired} (h : Handler.runNames before = []) (text : String) :
    Tell idleDelay
      (calls ++ ((openUp idleDelay before).snapshot isDirty idleDelay text).calls) ⟨none⟩
      (.editable false false) where
  editable := by
    rw [lastCall_append_name, lastRun, Turn.snapshot, runNames_openUp idleDelay h]
    cases idleDelay <;> rfl
  soiled := by
    rw [lastCall_append_name, lastRun, Turn.snapshot, runNames_openUp idleDelay h]
    cases idleDelay <;> rfl
  content h := by cases h
  activity dirty idle hmode htimed := by
    obtain ⟨rfl, rfl⟩ := Mode.editable.inj hmode
    rw [lastCall_append_name, lastRun, Turn.snapshot, runNames_openUp idleDelay h, activeNames,
      htimed]
    rfl

theorem Tell.soil (tell : Tell idleDelay calls context mode) (dirty idle : Bool) (content : T)
    (text : String) (heditable : mode.isEditable = true) :
    Tell idleDelay (calls ++ ((soil idleDelay (departures dirty idle idleDelay)
      content).snapshot isDirty idleDelay text).calls) ⟨some content⟩ (.editable true false) where
  editable := by
    rw [lastCall_append_name, lastRun, Turn.snapshot, runNames_soil, tell.editable, heditable]
    cases idleDelay <;> rfl
  soiled := by
    rw [lastCall_append_name, lastRun, Turn.snapshot, runNames_soil]
    cases idleDelay <;> rfl
  content _ := by
    refine ⟨content, rfl, ?_⟩
    rw [lastCall_append, lastRun, Turn.snapshot, runNames_soil]
    cases idleDelay <;> rfl
  activity dirty idle hmode htimed := by
    obtain ⟨rfl, rfl⟩ := Mode.editable.inj hmode
    rw [lastCall_append_name, lastRun, Turn.snapshot, runNames_soil, activeNames, htimed]
    rfl

theorem tell_closeDown (dirty idle locked denied : Bool) (text : String) :
    Tell idleDelay (calls ++ ((closeDown (departures dirty idle idleDelay) locked denied
      context).snapshot isDirty idleDelay text).calls) context (.uneditable locked denied) where
  editable := by
    rw [lastCall_append_name, lastRun, Turn.snapshot, runNames_closeDown]
    rfl
  soiled := by
    rw [lastCall_append_name, lastRun, Turn.snapshot, runNames_closeDown]
    rfl
  content h := by cases h
  activity _ _ hmode := by cases hmode

/-- An editor that comes to be idle tells so, and all else it has told holds on. -/
theorem Tell.tire {dirty : Bool} (tell : Tell idleDelay calls context (.editable dirty false))
    {s : Snapshot (EditorContext T)} (h : Handler.runNames s.fired = ["notifyIdle"]) :
    Tell idleDelay (calls ++ s.calls) context (.editable dirty true) where
  editable := by
    rw [lastCall_append_name, lastRun, h]
    exact tell.editable
  soiled := by
    rw [lastCall_append_name, lastRun, h]
    exact tell.soiled
  content hsoiled := by
    rw [lastCall_append, lastRun, h]
    exact tell.content hsoiled
  activity _ _ hmode _ := by
    obtain ⟨rfl, rfl⟩ := Mode.editable.inj hmode
    rw [lastCall_append_name, lastRun, h]
    rfl

theorem Tell.move (tell : Tell idleDelay calls context mode)
    (moves : Moves isDirty idleDelay context mode trigger next) (text : String) :
    Tell idleDelay (calls ++ (next.snapshot isDirty idleDelay text).calls) next.context
      next.mode := by
  have hquiet : Handler.runNames next.fired = [] →
      calls ++ (next.snapshot isDirty idleDelay text).calls = calls := by
    intro h
    rw [Snapshot.calls, Turn.snapshot, h, List.map_nil, List.append_nil]
  cases moves with
  | stays =>
    rw [hquiet rfl]
    exact tell
  | accepts =>
    rw [hquiet rfl]
    exact { tell with content := fun h => by cases h }
  | soils => exact tell.soil _ _ _ text rfl
  | resets => exact tell_openUp (runNames_departures ..) text
  | tires => exact tell.tire rfl
  | closes => exact tell_closeDown _ _ _ _ text
  | shifts =>
    rw [hquiet rfl]
    exact ⟨tell.editable, tell.soiled, (fun h => by cases h), fun _ _ h => by cases h⟩
  | opens => exact tell_openUp rfl text

theorem tell_trace {strides : List (EditorStride T)} {s : Snapshot (EditorContext T)}
    (trace : (machine isDirty idleDelay).Trace strides s) :
    ∃ mode, Shows isDirty idleDelay s mode ∧
      Tell idleDelay
        (((machine isDirty idleDelay).initial :: strides.map (·.after)).flatMap (·.calls))
        s.context mode := by
  refine trace_induction (P := fun strides mode s => Tell idleDelay
    (((machine isDirty idleDelay).initial :: strides.map (·.after)).flatMap (·.calls)) s.context
    mode) ?_ ?_ trace
  · have h : Tell idleDelay
        ([] ++ ((openUp idleDelay []).snapshot isDirty idleDelay "init").calls) ⟨none⟩
        (.editable false false) := tell_openUp rfl "init"
    rw [initial_turn, List.map_nil, List.flatMap_singleton]
    exact h
  · intro strides s mode trigger hs tell
    have h := tell.move (moves_turn isDirty idleDelay s.context mode trigger) trigger.text
    simpa [Turn.snapshot] using h

theorem leaves_timed (htimed : idleDelay.isSome = true) {s : Snapshot (EditorContext T)}
    {dirty idle : Bool} (hs : Shows isDirty idleDelay s (.editable dirty idle)) :
    ∃ leaf, s.configuration.leaves = [leaf] ∧ (leaf.key = "active" ↔ idle = false) := by
  rw [hs, configurationOf_active, htimed]
  refine ⟨_, rfl, ?_⟩
  clear hs
  revert dirty idle
  decide

end

/-- The calls of an editor, those of its start included, tell whether it is editable, whether it is
dirty and with what content, and with an idle delay whether the user of an editable one is active. -/
theorem calls_tell_state (isDirty : DirtyTest T) (idleDelay : Option Duration) :
    ∃ m, (spec isDirty idleDelay).build = .ok m ∧
      ∀ triggers : List (Trigger (EditorEvent T)), ∃ strides s,
        m.Trace strides s ∧ strides.map (·.trigger) = triggers ∧
        let calls := (m.initial :: strides.map (·.after)).flatMap (·.calls)
        (s.configuration.isActive ⟨"editable"⟩ = true ↔
          (lastCall ["notifyEditable", "notifyUneditable"] calls).map (·.1) =
            some "notifyEditable") ∧
        (s.configuration.isActive ⟨"editable.dirty"⟩ = true ↔
          (lastCall ["notifyResetEditor", "notifyContentDirty"] calls).map (·.1) =
            some "notifyContentDirty") ∧
        (s.configuration.isActive ⟨"editable.dirty"⟩ = true → ∃ content,
          s.context = ⟨some content⟩ ∧
          lastCall ["notifyResetEditor", "notifyContentDirty"] calls =
            some ("notifyContentDirty", ⟨some content⟩)) ∧
        (idleDelay.isSome = true → s.configuration.isActive ⟨"editable"⟩ = true →
          ∃ leaf, s.configuration.leaves = [leaf] ∧
            (leaf.key = "active" ↔
              (lastCall ["notifyActive", "notifyIdle"] calls).map (·.1) =
                some "notifyActive")) := by
  refine ⟨machine isDirty idleDelay, build_spec isDirty idleDelay, fun triggers => ?_⟩
  obtain ⟨strides, s, trace, rfl⟩ := (isTree_machine isDirty idleDelay).exists_trace triggers
  obtain ⟨mode, hs, tell⟩ := tell_trace trace
  refine ⟨strides, s, trace, rfl, ?_, ?_, ?_, fun htimed heditable => ?_⟩
  · rw [tell.editable, hs.editable]
    cases mode.isEditable <;> decide
  · rw [tell.soiled, hs.soiled]
    cases mode.isSoiled <;> decide
  · rw [hs.soiled]
    exact tell.content
  · rw [hs.editable] at heditable
    cases mode with
    | uneditable locked denied => cases heditable
    | editable dirty idle =>
      obtain ⟨leaf, hleaves, hactive⟩ := leaves_timed htimed hs
      refine ⟨leaf, hleaves, hactive.trans ?_⟩
      rw [tell.activity dirty idle rfl htimed]
      cases idle <;> decide

end Statechart.Editor
