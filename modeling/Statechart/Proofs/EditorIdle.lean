import Statechart.Proofs.EditorHooks
import Statechart.Proofs.EditorTimer

/-! The idle delay of an editor that runs as a service: nobody is told to be idle before a whole delay
has gone by since the active leaf was last entered, or twice without being told to be active in
between. -/
namespace Statechart.Editor

variable {T W : Type}

/-- Before each call that tells of an idle user, the last to tell of the activity told of an active
one. -/
def Alternates (calls : List (String × EditorContext T)) : Prop :=
  ∀ earlier call later, calls = earlier ++ call :: later → call.1 = "notifyIdle" →
    (lastCall ["notifyActive", "notifyIdle"] earlier).map (·.1) = some "notifyActive"

theorem alternates_nil : Alternates ([] : List (String × EditorContext T)) := by
  intro earlier call later h
  simp at h

theorem Alternates.append {calls calls' : List (String × EditorContext T)}
    (alternates : Alternates calls)
    (h : ∀ earlier call later, calls' = earlier ++ call :: later → call.1 = "notifyIdle" →
      (lastCall ["notifyActive", "notifyIdle"] (calls ++ earlier)).map (·.1) =
        some "notifyActive") :
    Alternates (calls ++ calls') := by
  intro earlier call later hsplit hidle
  rcases List.append_eq_append_iff.mp hsplit with ⟨between, rfl, hcalls⟩ | ⟨between, rfl, hcalls⟩
  · exact h between call later hcalls hidle
  · cases between with
    | nil => simpa using h [] call later hcalls.symm hidle
    | cons first rest =>
      obtain ⟨rfl, -⟩ := List.cons.inj hcalls
      exact alternates earlier call rest rfl hidle

theorem Alternates.append_quiet {calls calls' : List (String × EditorContext T)}
    (alternates : Alternates calls) (h : ∀ call ∈ calls', call.1 ≠ "notifyIdle") :
    Alternates (calls ++ calls') :=
  alternates.append fun _ call _ hsplit hidle =>
    absurd hidle (h call (hsplit ▸ List.mem_append_right _ List.mem_cons_self))

theorem Alternates.concat {calls : List (String × EditorContext T)} (alternates : Alternates calls)
    (hlast : (lastCall ["notifyActive", "notifyIdle"] calls).map (·.1) = some "notifyActive")
    (call : String × EditorContext T) : Alternates (calls ++ [call]) := by
  refine alternates.append fun earlier _ later hsplit _ => ?_
  cases earlier with
  | nil => rwa [List.append_nil]
  | cons _ _ => simp at hsplit

/-- Of two calls that tell of an idle user, one between them tells of an active one. -/
theorem Alternates.between {first mid later : List (String × EditorContext T)}
    {idle idle' : String × EditorContext T}
    (alternates : Alternates (first ++ idle :: mid ++ idle' :: later)) (hidle : idle.1 = "notifyIdle")
    (hidle' : idle'.1 = "notifyIdle") : ∃ call ∈ mid, call.1 = "notifyActive" := by
  obtain ⟨call, hcall, hactive⟩ := Option.map_eq_some_iff.mp
    (alternates (first ++ idle :: mid) idle' later rfl hidle')
  have hlast : lastCall ["notifyActive", "notifyIdle"] (first ++ idle :: mid) =
      (lastCall ["notifyActive", "notifyIdle"] mid).or (some idle) := by
    simp [lastCall, hidle, List.getLast?_append, List.getLast?_cons]
  rw [hlast] at hcall
  cases hmid : lastCall ["notifyActive", "notifyIdle"] mid with
  | none =>
    obtain rfl : idle = call := by simpa [hmid] using hcall
    rw [hidle] at hactive
    exact absurd hactive (by decide)
  | some last =>
    obtain rfl : last = call := by simpa [hmid] using hcall
    exact ⟨last, List.mem_of_mem_filter (List.mem_of_getLast? hmid), hactive⟩

def callsOf (ms : Moments T) : List (String × EditorContext T) := ms.flatMap (·.snapshot.calls)

/-- What holds of an editor that has run as a service, from a world and with hooks that return. -/
structure OnTime (isDirty : DirtyTest T) (delay : Duration) (hooks : Hooks T W) (world : W)
    (ms : Moments T) (mode : Mode) (s : EditorService T W) : Prop where
  chart : s.chart = machine isDirty (some delay)
  handler : s.handler = hooks.handler
  keeps : s.clockwork.Keeps delay
  running : s.status = .running
  shows : Shows isDirty (some delay) s.current mode
  tell : Tell (some delay) (callsOf ms) s.current.context mode
  acts : s.world = hooks.handler.after world (callsOf ms)
  alternates : Alternates (callsOf ms)
  timed : Timed delay ms mode s

/-- What the command at the head of the queue can make of an editor on time. -/
inductive Becomes (isDirty : DirtyTest T) (delay : Duration) (ms : Moments T)
    (s : EditorService T W) : Mode → Command (EditorEvent T) → EditorService T W → Prop where
  | quiet {mode : Mode} {command : Command (EditorEvent T)} : s.triggerOf? command = none →
      Becomes isDirty delay ms s mode command { s with queue := s.queue.tail }
  | event {mode : Mode} (event : EditorEvent T) : Becomes isDirty delay ms s mode (.send event)
      (turned isDirty delay s s.timers
        (turn isDirty (some delay) s.current.context mode (.event event)) event.typeName)
  | tires {dirty : Bool} {clock : Nat} {alarm : Alarm} {t : Timers} :
      EnteredAt ms (timedState dirty) clock →
      deadline delay clock ≤ s.clock * Service.nanosPerMilli →
      s.timers.claim alarm = some t → t.AtRest → t.generation = s.timers.generation →
      Becomes isDirty delay ms s (.editable dirty false) (.timeout alarm)
        (turned isDirty delay s t (tire dirty s.current.context)
          (Trigger.delayText (timedState dirty)))

section

variable {isDirty : DirtyTest T} {delay : Duration} {hooks : Hooks T W} {clockwork : Clockwork}
  {world : W} {ms : Moments T} {mode : Mode} {s s' : EditorService T W}
  {command : Command (EditorEvent T)} {answer : Answer (EditorContext T)}

theorem OnTime.becomes (onTime : OnTime isDirty delay hooks world ms mode s)
    (returns : hooks.Return) (hhead : s.queue.head? = some command)
    (hnext : s.next? = some (s', answer)) : Becomes isDirty delay ms s mode command s' := by
  have steps : ∀ trigger, ∃ next, s.chart.transition s.current trigger = .ok next ∧
      s.handler.Serves next := fun trigger => by
    rw [onTime.chart, onTime.handler]
    exact ⟨_, transition_turn onTime.shows trigger, serves_turn returns (moves_turn ..) _⟩
  rcases Service.next?_cases onTime.running hhead hnext steps with
    ⟨hquiet, rfl⟩ | ⟨trigger, timers, next, takes, htransition, rfl⟩
  · exact .quiet hquiet
  · rw [onTime.chart, transition_turn onTime.shows] at htransition
    obtain rfl := Except.ok.inj htransition
    cases takes with
    | event event => exact .event event
    | @alarm alarm _ hclaim =>
      rcases onTime.timed.cases with ⟨dirty, clock, rfl, entered, waits⟩ | ⟨-, rest⟩
      · obtain ⟨hstate, hdue, rest, hgeneration⟩ := waits.claim hhead hclaim
        rw [hstate, turn_tire]
        exact .tires entered hdue hclaim rest hgeneration
      · simp [rest.claim] at hclaim

theorem callsOf_concat (ms : Moments T) (y : Service.Moment (EditorContext T)) :
    callsOf (ms ++ [y]) = callsOf ms ++ y.snapshot.calls := by
  rw [callsOf, List.flatMap_append, List.flatMap_singleton, ← callsOf]

theorem not_idle_of_names {s : Snapshot (EditorContext T)}
    (h : "notifyIdle" ∉ Handler.runNames s.fired) : ∀ call ∈ s.calls, call.1 ≠ "notifyIdle" := by
  intro call hcall hidle
  obtain ⟨name, hname, rfl⟩ := List.mem_map.mp hcall
  exact h (hidle ▸ hname)

theorem idle_not_mem_openUp {before : List Fired} (h : Handler.runNames before = []) :
    "notifyIdle" ∉ Handler.runNames (openUp (T := T) (some delay) before).fired := by
  rw [runNames_openUp _ h]
  simp [activeNames]

theorem idle_not_mem_of_moves {context : EditorContext T} {event : EditorEvent T} {next : Turn T}
    (moves : Moves isDirty (some delay) context mode (.event event) next) :
    "notifyIdle" ∉ Handler.runNames next.fired := by
  cases moves with
  | stays | accepts | shifts => exact List.not_mem_nil
  | soils => rw [runNames_soil]; simp [activeNames]
  | resets => exact idle_not_mem_openUp (runNames_departures ..)
  | closes => rw [runNames_closeDown]; decide
  | opens => exact idle_not_mem_openUp rfl

theorem OnTime.take (onTime : OnTime isDirty delay hooks world ms mode s) {t : Timers}
    {next : Turn T} {text : String}
    (tell : Tell (some delay)
      (callsOf ms ++ (next.snapshot isDirty (some delay) text).calls) next.context next.mode)
    (alternates : Alternates (callsOf ms ++ (next.snapshot isDirty (some delay) text).calls))
    (timed : Timed delay (ms ++ [⟨s.clock, next.snapshot isDirty (some delay) text⟩]) next.mode
      (turned isDirty delay s t next text)) :
    OnTime isDirty delay hooks world
      (ms ++ [⟨s.clock, next.snapshot isDirty (some delay) text⟩]) next.mode
      (turned isDirty delay s t next text) where
  chart := onTime.chart
  handler := onTime.handler
  keeps := onTime.keeps
  running := onTime.running
  shows := rfl
  tell := by rwa [callsOf_concat]
  acts := by
    rw [callsOf_concat, Handler.after_append, ← onTime.acts, ← onTime.handler]
    rfl
  alternates := by rwa [callsOf_concat]
  timed := timed

theorem OnTime.next (onTime : OnTime isDirty delay hooks world ms mode s)
    (hhead : s.queue.head? = some command) (becomes : Becomes isDirty delay ms s mode command s') :
    ∃ mode', OnTime isDirty delay hooks world
      (ms ++ ((s.triggerOf? command).map fun _ => ⟨s.clock, s'.current⟩).toList) mode' s' := by
  cases becomes with
  | quiet hquiet =>
    rw [hquiet, Option.map_none, Option.toList_none, List.append_nil]
    refine ⟨mode, { onTime with timed := ?_ }⟩
    refine onTime.timed.keep hhead (fun alarm h => ?_) rfl rfl rfl (fun _ _ _ entered => entered)
    simpa [h, Service.triggerOf?] using hquiet
  | event event =>
    have moves := moves_turn isDirty (some delay) s.current.context mode (.event event)
    refine ⟨_, onTime.take (onTime.tell.move moves _) (onTime.alternates.append_quiet ?_)
      (onTime.timed.move onTime.keeps moves hhead)⟩
    exact not_idle_of_names (idle_not_mem_of_moves moves)
  | @tires dirty _ _ _ _ _ hclaim rest hgeneration =>
    rw [(Service.Takes.alarm hclaim).triggerOf?]
    have alternates := onTime.alternates.concat (onTime.tell.activity dirty false rfl rfl)
    exact ⟨_, onTime.take (onTime.tell.tire rfl) (alternates _)
      (timed_tire dirty rest hgeneration onTime.timed.dated)⟩

abbrev first (isDirty : DirtyTest T) (delay : Duration) : Snapshot (EditorContext T) :=
  (openUp (some delay) []).snapshot isDirty (some delay) "init"

theorem onTime_start {options : Options} (returns : hooks.Return) (keeps : clockwork.Keeps delay)
    (h : (Service.start (machine isDirty (some delay)) hooks.handler options clockwork
      world).result = .ok s) :
    OnTime isDirty delay hooks world [⟨0, (machine isDirty (some delay)).initial⟩]
      (.editable false false) s := by
  rw [Service.start_serves _ _ _ (serves_initial returns isDirty (some delay))] at h
  obtain rfl := Except.ok.inj h
  rw [initial_turn]
  have hcalls : callsOf [⟨0, first isDirty delay⟩] = [] ++ (first isDirty delay).calls := by
    rw [callsOf, List.flatMap_singleton, List.nil_append]
  refine {
    chart := rfl
    handler := rfl
    keeps
    running := rfl
    shows := initial_configuration isDirty (some delay)
    tell := ?_
    acts := ?_
    alternates := ?_
    timed := ?_ }
  · rw [hcalls]
    exact tell_openUp rfl "init"
  · rw [hcalls]
    rfl
  · rw [hcalls]
    exact alternates_nil.append_quiet (not_idle_of_names (idle_not_mem_openUp (T := T) rfl))
  · have henters : Enters ⟨0, first isDirty delay⟩ (timedState false) :=
      enters_snapshot_iff.mpr ⟨rfl, active_mem_openUp rfl⟩
    show Timed delay ([] ++ [_]) _ _
    refine timed_of_arms Timers.atRest_empty ?_ keeps (fun _ hmem => absurd hmem List.not_mem_nil) rfl
      henters
    dsimp only [Service.fresh]
    rw [initial_turn]
    rfl

theorem onTime_of_timely {log : List (Service.Handled (EditorContext T) (EditorEvent T) W)}
    (returns : hooks.Return) (keeps : clockwork.Keeps delay)
    (timely : Service.Timely (machine isDirty (some delay)) hooks.handler clockwork world log s) :
    ∃ mode, OnTime isDirty delay hooks world
      (Service.moments (machine isDirty (some delay)) log) mode s := by
  induction timely with
  | start h => exact ⟨_, onTime_start returns keeps h⟩
  | send event _ ih =>
    obtain ⟨mode, onTime⟩ := ih
    exact ⟨mode, { onTime with timed := onTime.timed.submit (by simp) }⟩
  | history _ ih =>
    obtain ⟨mode, onTime⟩ := ih
    exact ⟨mode, { onTime with timed := onTime.timed.submit (by simp) }⟩
  | ring hclock _ ih =>
    obtain ⟨mode, onTime⟩ := ih
    exact ⟨mode, { onTime with timed := onTime.timed.ring hclock }⟩
  | wait hclock _ ih =>
    obtain ⟨mode, onTime⟩ := ih
    exact ⟨mode, { onTime with timed := onTime.timed.wait hclock }⟩
  | next _ hhead hnext ih =>
    obtain ⟨mode, onTime⟩ := ih
    rw [Service.moments_append]
    exact onTime.next hhead (onTime.becomes returns hhead hnext)

end

/-- What an editor that has run as a service has come to: the timer it has while a leaf counts the
delay, and that it has none otherwise. All calls it has asked for were made, in order, and `between`
two that tell of an idle user one has told of an active one. -/
structure Punctual (delay : Duration) (hooks : Hooks T W) (world : W) (ms : Moments T)
    (s : EditorService T W) : Prop where
  running : s.status = .running
  waits : ∀ dirty, s.current.configuration = .ofLeaves [timedState dirty] → ∃ clock,
    EnteredAt ms (timedState dirty) clock ∧ s.Waits (timedState dirty) (deadline delay clock)
  rests : (∀ dirty, s.current.configuration ≠ .ofLeaves [timedState dirty]) → s.timers.AtRest
  acts : s.world = hooks.handler.after world (callsOf ms)
  between : ∀ first idle mid idle' later, callsOf ms = first ++ idle :: mid ++ idle' :: later →
    idle.1 = "notifyIdle" → idle'.1 = "notifyIdle" → ∃ call ∈ mid, call.1 = "notifyActive"

/-- What handling a command has to do with the delay, after the moments that came before it: when it
enters a leaf, when it tells of an idle user, and what new content does to the timer, be it `clean`
while the editor is pristine or any while it is `dirty`. -/
structure PunctualStep (isDirty : DirtyTest T) (delay : Duration) (ms : Moments T)
    (x : Service.Handled (EditorContext T) (EditorEvent T) W) : Prop where
  enters : ∀ y ∈ x.moment?, ∀ dirty, Enters y (timedState dirty) ↔
    x.after.current.configuration = .ofLeaves [timedState dirty] ∧
      (x.before.current.configuration ≠ .ofLeaves [timedState dirty] ∨
        dirty = true ∧ ∃ content, x.command = .send (.contentUpdated content))
  idle : ∀ y ∈ x.moment?, "notifyIdle" ∈ Handler.runNames y.snapshot.fired → ∃ dirty clock,
    x.before.current.configuration = .ofLeaves [timedState dirty] ∧
      EnteredAt ms (timedState dirty) clock ∧
      deadline delay clock ≤ x.before.clock * Service.nanosPerMilli
  clean : ∀ content, x.command = .send (.contentUpdated content) →
    x.before.current.configuration.isActive ⟨"editable.pristine"⟩ = true →
    isDirty x.before.current.context.content content ≠ .dirty → x.after.timers = x.before.timers
  dirty : ∀ content, x.command = .send (.contentUpdated content) →
    x.before.current.configuration.isActive ⟨"editable.dirty"⟩ = true →
    let alarm : Alarm := ⟨timedState true, x.before.timers.generation + 1⟩
    x.after.timers =
      { armed := [alarm]
        sleeping := [⟨alarm, deadline delay x.before.clock⟩]
        generation := alarm.generation }

section

variable {isDirty : DirtyTest T} {delay : Duration} {hooks : Hooks T W} {world : W}
  {ms : Moments T} {mode : Mode} {s : EditorService T W}

theorem OnTime.punctual (onTime : OnTime isDirty delay hooks world ms mode s) :
    Punctual delay hooks world ms s where
  running := onTime.running
  waits dirty h := onTime.timed.waits dirty ((onTime.shows.timed dirty).mp h)
  rests h := onTime.timed.rests fun dirty hmode => h dirty ((onTime.shows.timed dirty).mpr hmode)
  acts := onTime.acts
  between _ _ _ _ _ hsplit := Alternates.between (hsplit ▸ onTime.alternates)

/-- An event has the editor enter a leaf just when that comes to be active, or is dirty and given
new content. -/
theorem active_mem_iff_of_moves {context : EditorContext T} {event : EditorEvent T} {next : Turn T}
    (moves : Moves isDirty (some delay) context mode (.event event) next) {dirty : Bool}
    (hnext : next.mode = .editable dirty false) :
    "notifyActive" ∈ Handler.runNames next.fired ↔
      mode ≠ .editable dirty false ∨ dirty = true ∧ ∃ content, event = .contentUpdated content := by
  cases moves with
  | stays ignores =>
    obtain rfl : mode = .editable dirty false := hnext
    have hignored : ∀ content, event ≠ .contentUpdated content :=
      fun content h => (ignores dirty false rfl).1 content (h ▸ rfl)
    simp [stay, Handler.runNames, hignored]
  | accepts =>
    obtain ⟨rfl, rfl⟩ := Mode.editable.inj hnext
    simp [Handler.runNames]
  | @soils _ _ content =>
    obtain ⟨rfl, -⟩ := Mode.editable.inj hnext
    exact iff_of_true (active_mem_soil ..) (.inr ⟨rfl, content, rfl⟩)
  | resets =>
    obtain ⟨rfl, -⟩ := Mode.editable.inj hnext
    exact iff_of_true (active_mem_openUp (runNames_departures ..)) (.inl (by simp))
  | closes => cases hnext
  | shifts => cases hnext
  | opens => exact iff_of_true (active_mem_openUp rfl) (.inl (by simp))

theorem leaves_pristine (mode : Mode) :
    (mode.leaves true).any (Path.contains ⟨"editable.pristine"⟩) = true ↔
      ∃ idle, mode = .editable false idle := by
  rcases mode with ⟨_ | _, _ | _⟩ | ⟨_ | _, _ | _⟩ <;> decide

theorem turn_clean {context : EditorContext T} {content : T}
    (h : isDirty context.content content ≠ .dirty) (idleDelay : Option Duration) (idle : Bool) :
    turn isDirty idleDelay context (.editable false idle) (.event (.contentUpdated content)) =
      { mode := .editable false idle
        context := ⟨some content⟩
        fired := [.assign "updateContent"]
        faults := judgementFaults (isDirty context.content content) } := by
  simp [turn]

theorem OnTime.step_event (onTime : OnTime isDirty delay hooks world ms mode s)
    (event : EditorEvent T) (answer : Answer (EditorContext T)) :
    PunctualStep isDirty delay ms ⟨s, .send event, answer, turned isDirty delay s s.timers
      (turn isDirty (some delay) s.current.context mode (.event event)) event.typeName⟩ := by
  have moves := moves_turn isDirty (some delay) s.current.context mode (.event event)
  refine ⟨?_, ?_, ?_, ?_⟩
  · rintro y ⟨⟩ dirty
    have hafter : Shows isDirty (some delay) (Turn.snapshot _ isDirty (some delay) event.typeName)
      (turn isDirty (some delay) s.current.context mode (.event event)).mode := rfl
    dsimp only [Service.current_took]
    rw [enters_snapshot_iff, hafter.timed dirty, ne_eq, onTime.shows.timed dirty]
    refine and_congr_right fun hnext => ?_
    rw [active_mem_iff_of_moves moves hnext]
    simp
  · rintro y ⟨⟩ hidle
    exact absurd hidle (idle_not_mem_of_moves moves)
  · rintro content ⟨⟩ hpristine hclean
    rw [onTime.shows.isActive, Option.isSome_some, leaves_pristine] at hpristine
    obtain ⟨idle, rfl⟩ := hpristine
    dsimp only
    rw [turn_clean hclean]
    exact timers_turned rfl
  · rintro content ⟨⟩ hdirty
    rw [onTime.shows.soiled] at hdirty
    rcases mode with ⟨_ | _, idle⟩ | ⟨locked, denied⟩
    · cases hdirty
    · obtain ⟨rest, hgeneration⟩ := onTime.timed.departed
      refine ((timers_turned rfl).trans (apply_soil true idle content)).trans ?_
      rw [rest.arm, hgeneration, wake_eq_deadline onTime.keeps]
    · cases hdirty

theorem OnTime.step (onTime : OnTime isDirty delay hooks world ms mode s)
    {command : Command (EditorEvent T)} {answer : Answer (EditorContext T)} {s' : EditorService T W}
    (becomes : Becomes isDirty delay ms s mode command s') :
    PunctualStep isDirty delay ms ⟨s, command, answer, s'⟩ := by
  cases becomes with
  | quiet hquiet =>
    have hmoment : Service.Handled.moment? ⟨s, command, answer, { s with queue := s.queue.tail }⟩ =
        none := by rw [Service.Handled.moment?, Service.Handled.trigger?, hquiet, Option.map_none]
    have hsend : ∀ event, command ≠ .send event := by
      rintro event rfl
      cases hquiet
    refine ⟨?_, ?_, fun _ h => absurd h (hsend _), fun _ h => absurd h (hsend _)⟩
    · simp [hmoment]
    · simp [hmoment]
  | event event => exact onTime.step_event event answer
  | @tires dirty clock alarm t entered hdue hclaim rest hgeneration =>
    have hled := (Service.Takes.alarm (s := s) hclaim).triggerOf?
    have hafter : Shows isDirty (some delay) ((tire dirty s.current.context).snapshot isDirty
      (some delay) (Trigger.delayText (timedState dirty))) (.editable dirty true) := rfl
    refine ⟨fun y hy dirty' => ?_, fun y _ _ => ?_, (fun _ h => by cases h), fun _ h => by cases h⟩
    · rw [Service.Handled.moment?, Service.Handled.trigger?, hled] at hy
      obtain rfl := Option.some.inj hy
      dsimp only [Service.current_took]
      rw [enters_snapshot_iff, hafter.timed dirty']
      simp [tire]
    · exact ⟨dirty, clock, (onTime.shows.timed dirty).mpr rfl, entered, hdue⟩

end

/-- Whatever events come while the clock of a service moves on, its editor has one timer, that of
the active leaf, from when the leaf was last entered; in a state without a delay it has none. Nobody
is told to be idle earlier, or twice without being told to be active in between. New content that is
clean leaves the timer of a pristine editor alone, and new content arms that of a dirty one anew. -/
theorem idle_on_time {isDirty : DirtyTest T} {delay : Duration} {hooks : Hooks T W}
    {clockwork : Clockwork} {world : W} {m : Chart (EditorContext T) (EditorEvent T)}
    (built : (spec isDirty (some delay)).build = .ok m) (returns : hooks.Return)
    (keeps : clockwork.Keeps delay)
    {log : List (Service.Handled (EditorContext T) (EditorEvent T) W)} {s : EditorService T W}
    (timely : Service.Timely m hooks.handler clockwork world log s) :
    Punctual delay hooks world (Service.moments m log) s ∧
      ∀ earlier x later, log = earlier ++ x :: later →
        PunctualStep isDirty delay (Service.moments m earlier) x := by
  obtain rfl : machine isDirty (some delay) = m :=
    Except.ok.inj ((build_spec isDirty (some delay)).symm.trans built)
  obtain ⟨mode, onTime⟩ := onTime_of_timely returns keeps timely
  refine ⟨onTime.punctual, fun earlier x later hlog => ?_⟩
  obtain ⟨before, hhead, hnext⟩ := timely.split hlog
  obtain ⟨mode, onTime⟩ := onTime_of_timely returns keeps before
  exact onTime.step (onTime.becomes returns hhead hnext)

def note (name : String) : Hook (List String) := fun noted => (.returned, noted ++ [name])

def notes : Hooks Unit (List String) where
  onContentDirty _ := note "dirty"
  onEditable := note "editable"
  onUneditable := note "uneditable"
  onResetEditor := note "reset"
  onActive := some (note "active")
  onIdle := some (note "idle")

theorem notes_return : notes.Return := by
  constructor <;> simp [Hook.Returns, notes, note]

def dirtyChart (delay : Duration) : Chart (EditorContext Unit) (EditorEvent Unit) :=
  machine (fun _ _ => .dirty) (some delay)

def opened (delay : Duration) : EditorService Unit (List String) where
  chart := dirtyChart delay
  handler := notes.handler
  options := {}
  clockwork := .exact
  world := notes.handler.after [] (dirtyChart delay).initial.calls
  clock := 0
  current := (dirtyChart delay).initial
  timers := (({} : Timers).apply (Clockwork.exact.wake 0) (dirtyChart delay).initial.fired).1
  journal := .bounded 1024
  queue := []
  commits := 0
  status := .running

theorem timely_opened (delay : Duration) :
    Service.Timely (dirtyChart delay) notes.handler .exact [] [] (opened delay) :=
  .start (Service.start_serves {} .exact [] (serves_initial notes_return _ _))

def second : Duration := { Duration.zero with secs := 1 }

def typing : EditorService Unit (List String) :=
  (opened second).submit (.send (.contentUpdated ()))

def typingOn : EditorService Unit (List String) :=
  (typing.drain.1.submit (.send (.contentUpdated ()))).ringAt 1000

def tired : EditorService Unit (List String) := typingOn.drain.1.ringAt 2000

/-- The user of a dirty editor types on just when the delay is over: the alarm finds its timer armed
anew, and only a second one has the user idle. -/
theorem tired_on_time : Clockwork.exact.Keeps second ∧ ∃ log,
    Service.Timely (dirtyChart second) notes.handler .exact [] log tired.drain.1 ∧
    Punctual second notes [] (Service.moments (dirtyChart second) log) tired.drain.1 ∧
    log.map (·.answer.reply.isSome) = [true, true, false, false] ∧
    typingOn.drain.1.current.configuration = .ofLeaves [timedState true] ∧
    tired.drain.1.world =
      ["editable", "reset", "active", "dirty", "active", "dirty", "active", "idle"] := by
  have tree := isTree_machine (T := Unit) (fun _ _ => .dirty) (some second)
  have returns := notes_return.handler_returns
  obtain ⟨first, timely, hfirst⟩ :=
    ((timely_opened second).send (.contentUpdated ())).drain tree returns
  have hrace : (typing.drain.1.submit (.send (.contentUpdated ()))).clock ≤ 1000 := by
    decide +kernel
  obtain ⟨mid, timely, hmid⟩ := ((timely.send (.contentUpdated ())).ring hrace).drain tree returns
  have htired : typingOn.drain.1.clock ≤ 2000 := by decide +kernel
  obtain ⟨last, timely, hlast⟩ := (timely.ring htired).drain tree returns
  have keeps : Clockwork.exact.Keeps second := rfl
  refine ⟨keeps, _, timely, (idle_on_time (build_spec ..) notes_return keeps timely).1, ?_,
    by decide +kernel, by decide +kernel⟩
  have hreplies : (typing.drain.2 ++ typingOn.drain.2 ++ tired.drain.2).map (·.reply.isSome) =
      [true, true, false, false] := by decide +kernel
  have hanswers : typing.drain.2 ++ typingOn.drain.2 ++ tired.drain.2 =
      ([] ++ first ++ mid ++ last).map Service.Handled.answer := by
    rw [List.nil_append, List.map_append, List.map_append, ← hfirst, ← hmid, ← hlast]
    rfl
  rw [← hreplies, hanswers, List.map_map]
  rfl

end Statechart.Editor
