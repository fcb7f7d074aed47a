import Statechart.Proofs.EditorMoves
import Statechart.Proofs.EditorObserver
import Statechart.Proofs.LoneTimer
import Statechart.Proofs.Timely

/-! The timer of an editor that runs as a service. It is that of the active leaf, and it was armed
when the leaf was last entered. -/
namespace Statechart.Editor

variable {T W : Type}

/-- When the delay of a leaf is over that was entered at a reading of the clock, in nanoseconds. -/
def deadline (delay : Duration) (clock : Nat) : Nat :=
  clock * Service.nanosPerMilli + delay.toNanos

theorem wake_eq_deadline {c : Clockwork} {delay : Duration} (keeps : c.Keeps delay) (clock : Nat) :
    c.wake clock delay = deadline delay clock :=
  congrArg (clock * Service.nanosPerMilli + ·) keeps

abbrev Moments (T : Type) := List (Service.Moment (EditorContext T))

/-- The step entered the leaf that is active after it: only entering such a leaf tells that the user
is active. -/
def Enters (y : Service.Moment (EditorContext T)) (leaf : Path) : Prop :=
  y.snapshot.configuration = .ofLeaves [leaf] ∧ "notifyActive" ∈ Handler.runNames y.snapshot.fired

/-- The leaf was last entered at a reading of the clock, and has been active ever since. -/
def EnteredAt (ms : Moments T) (leaf : Path) (clock : Nat) : Prop :=
  ∃ past entry since, ms = past ++ entry :: since ∧ entry.clock = clock ∧ Enters entry leaf ∧
    ∀ y ∈ since, y.snapshot.configuration = .ofLeaves [leaf] ∧ ¬Enters y leaf

section

variable {ms : Moments T} {leaf : Path} {clock : Nat} {y : Service.Moment (EditorContext T)}

theorem enteredAt_concat (h : Enters y leaf) : EnteredAt (ms ++ [y]) leaf y.clock :=
  ⟨ms, y, [], rfl, rfl, h, by simp⟩

theorem EnteredAt.concat (entered : EnteredAt ms leaf clock)
    (hactive : y.snapshot.configuration = .ofLeaves [leaf]) (hquiet : ¬Enters y leaf) :
    EnteredAt (ms ++ [y]) leaf clock := by
  obtain ⟨past, entry, since, rfl, hclock, henters, hsince⟩ := entered
  refine ⟨past, entry, since ++ [y], by simp, hclock, henters, ?_⟩
  exact List.forall_mem_append.mpr ⟨hsince, by simpa using ⟨hactive, hquiet⟩⟩

end

abbrev EditorService (T W : Type) := Service (EditorContext T) (EditorEvent T) W

/-- What the timers of an editor in a mode are. -/
structure Timed (delay : Duration) (ms : Moments T) (mode : Mode) (s : EditorService T W) :
    Prop where
  waits : ∀ dirty, mode = .editable dirty false → ∃ clock,
    EnteredAt ms (timedState dirty) clock ∧ s.Waits (timedState dirty) (deadline delay clock)
  rests : (∀ dirty, mode ≠ .editable dirty false) → s.timers.AtRest
  dated : s.Dated

section

variable {delay : Duration} {ms : Moments T} {mode : Mode} {s s' : EditorService T W}

theorem timed_of_rests (h : ∀ dirty, mode ≠ .editable dirty false) (rest : s.timers.AtRest)
    (dated : s.Dated) : Timed delay ms mode s where
  waits dirty hmode := absurd hmode (h dirty)
  rests _ := rest
  dated := dated

theorem timed_of_waits {dirty : Bool} {clock : Nat} (entered : EnteredAt ms (timedState dirty) clock)
    (waits : s.Waits (timedState dirty) (deadline delay clock)) (dated : s.Dated) :
    Timed delay ms (.editable dirty false) s where
  waits dirty' hmode := by
    obtain ⟨rfl, -⟩ := Mode.editable.inj hmode
    exact ⟨clock, entered, waits⟩
  rests h := absurd rfl (h dirty)
  dated := dated

theorem Timed.cases (timed : Timed delay ms mode s) :
    (∃ dirty clock, mode = .editable dirty false ∧ EnteredAt ms (timedState dirty) clock ∧
        s.Waits (timedState dirty) (deadline delay clock)) ∨
      ((∀ dirty, mode ≠ .editable dirty false) ∧ s.timers.AtRest) := by
  by_cases h : ∃ dirty, mode = .editable dirty false
  · obtain ⟨dirty, hmode⟩ := h
    obtain ⟨clock, hclock⟩ := timed.waits dirty hmode
    exact .inl ⟨dirty, clock, hmode, hclock⟩
  · have hnone : ∀ dirty, mode ≠ .editable dirty false := not_exists.mp h
    exact .inr ⟨hnone, timed.rests hnone⟩

theorem Timed.imp (timed : Timed delay ms mode s) {ms' : Moments T}
    (hentered : ∀ dirty clock, mode = .editable dirty false →
      EnteredAt ms (timedState dirty) clock → EnteredAt ms' (timedState dirty) clock)
    (hwaits : ∀ state deadline, s.Waits state deadline → s'.Waits state deadline)
    (hrests : s.timers.AtRest → s'.timers.AtRest) (dated : s'.Dated) :
    Timed delay ms' mode s' := by
  rcases timed.cases with ⟨dirty, clock, rfl, entered, waits⟩ | ⟨hnone, rest⟩
  · exact timed_of_waits (hentered dirty clock rfl entered) (hwaits _ _ waits) dated
  · exact timed_of_rests hnone (hrests rest) dated

theorem Timed.submit (timed : Timed delay ms mode s) {command : Command (EditorEvent T)}
    (h : ∀ alarm, command ≠ .timeout alarm) : Timed delay ms mode (s.submit command) := by
  refine timed.imp (fun _ _ _ entered => entered) (fun _ _ waits => waits.submit h) id ?_
  intro alarm hmem
  rcases List.mem_append.mp hmem with hqueue | hcommand
  · exact timed.dated alarm hqueue
  · exact absurd (List.mem_singleton.mp hcommand).symm (h alarm)

theorem Timed.wait (timed : Timed delay ms mode s) {clock : Nat} (h : s.clock ≤ clock) :
    Timed delay ms mode { s with clock } :=
  timed.imp (fun _ _ _ entered => entered) (fun _ _ waits => waits.wait h) id timed.dated

theorem Timed.ring (timed : Timed delay ms mode s) {clock : Nat} (h : s.clock ≤ clock) :
    Timed delay ms mode (s.ringAt clock) := by
  refine timed.imp (fun _ _ _ entered => entered) (fun _ _ waits => waits.ring h) ?_ ?_
  · intro rest
    simpa only [Service.ringAt, Timers.ring_none rest.sleeping] using rest
  · refine timed.dated.ring (fun sleeper hmem => ?_) clock
    rcases timed.cases with ⟨dirty, _, _, _, waits⟩ | ⟨_, rest⟩
    · rw [waits.lone.sleeping sleeper hmem]
    · simp [rest.sleeping] at hmem

theorem Timed.keep (timed : Timed delay ms mode s) {command : Command (EditorEvent T)}
    {ms' : Moments T} (hhead : s.queue.head? = some command)
    (hstale : ∀ alarm, command = .timeout alarm → s.timers.claim alarm = none)
    (htimers : s'.timers = s.timers) (hclock : s'.clock = s.clock)
    (hqueue : s'.queue = s.queue.tail)
    (hentered : ∀ dirty clock, mode = .editable dirty false →
      EnteredAt ms (timedState dirty) clock → EnteredAt ms' (timedState dirty) clock) :
    Timed delay ms' mode s' := by
  refine timed.imp hentered (fun state deadline waits => ?_) (fun rest => by rwa [htimers]) ?_
  · refine waits.next hhead (fun hcommand => ?_) htimers hclock hqueue
    have hclaim := waits.lone.claim_eq_some_iff.mpr ⟨rfl, rfl⟩
    simp [hstale _ hcommand] at hclaim
  · refine timed.dated.mono (fun _ hmem => List.mem_of_mem_tail (hqueue ▸ hmem)) ?_
    rw [htimers]

/-- The timers of an editor that has entered a leaf while none was armed. -/
theorem timed_of_arms {t : Timers} (rest : t.AtRest) {dirty : Bool}
    (htimers : s.timers = (t.arm (s.clockwork.wake s.clock) (timedState dirty) delay).1)
    (keeps : s.clockwork.Keeps delay)
    (old : ∀ alarm, .timeout alarm ∈ s.queue → alarm.generation ≤ t.generation)
    {y : Service.Moment (EditorContext T)} (hclock : s.clock = y.clock)
    (henters : Enters y (timedState dirty)) :
    Timed delay (ms ++ [y]) (.editable dirty false) s := by
  have waits := Service.waits_armed rest htimers old
  rw [wake_eq_deadline keeps, hclock] at waits
  refine timed_of_waits (enteredAt_concat henters) waits ?_
  intro alarm hmem
  rw [htimers, rest.arm]
  exact Nat.le_succ_of_le (old alarm hmem)

def departed (t : Timers) (dirty idle : Bool) : Timers :=
  if idle then t else (t.cancel (timedState dirty)).1

theorem Timed.departed {dirty idle : Bool} (timed : Timed delay ms (.editable dirty idle) s) :
    (departed s.timers dirty idle).AtRest ∧
      (departed s.timers dirty idle).generation = s.timers.generation := by
  cases idle with
  | true => exact ⟨timed.rests (by simp), rfl⟩
  | false =>
    obtain ⟨clock, -, waits⟩ := timed.waits dirty rfl
    exact waits.lone.cancel

end

section

variable {delay : Duration} {t : Timers} {wake : Duration → Nat}

theorem apply_soil (dirty idle : Bool) (content : T) :
    (t.apply wake (soil (some delay) (departures dirty idle (some delay)) content).fired).1 =
      ((departed t dirty idle).arm wake (timedState true) delay).1 := by
  cases idle <;> rfl

theorem apply_openUp (dirty idle : Bool) :
    (t.apply wake (openUp (T := T) (some delay) (departures dirty idle (some delay))).fired).1 =
      ((departed t dirty idle).arm wake (timedState false) delay).1 := by
  cases idle <;> rfl

theorem apply_closeDown (dirty idle locked denied : Bool) (context : EditorContext T) :
    (t.apply wake (closeDown (departures dirty idle (some delay)) locked denied context).fired).1 =
      departed t dirty idle := by
  cases idle <;> rfl

variable {isDirty : DirtyTest T} {context : EditorContext T} {mode : Mode} {ms : Moments T}
  {s : EditorService T W} {clock : Nat} {text : String}

theorem ofLeaves_eq_iff (mode : Mode) (dirty : Bool) :
    Configuration.ofLeaves (mode.leaves true) = .ofLeaves [timedState dirty] ↔
      mode = .editable dirty false := by
  rcases mode with ⟨_ | _, _ | _⟩ | ⟨_ | _, _ | _⟩ <;> cases dirty <;> decide

theorem Shows.timed {s : Snapshot (EditorContext T)} (hs : Shows isDirty (some delay) s mode)
    (dirty : Bool) :
    s.configuration = .ofLeaves [timedState dirty] ↔ mode = .editable dirty false := by
  rw [← ofLeaves_eq_iff, hs, configurationOf_active]
  rfl

theorem enters_snapshot_iff {turn : Turn T} {dirty : Bool} :
    Enters ⟨clock, turn.snapshot isDirty (some delay) text⟩ (timedState dirty) ↔
      turn.mode = .editable dirty false ∧ "notifyActive" ∈ Handler.runNames turn.fired := by
  have hs : Shows isDirty (some delay) (turn.snapshot isDirty (some delay) text) turn.mode := rfl
  exact and_congr_left' (hs.timed dirty)

/-- The service after a turn that the editor takes with the timers as given. -/
abbrev turned (isDirty : DirtyTest T) (delay : Duration) (s : EditorService T W) (t : Timers)
    (turn : Turn T) (text : String) : EditorService T W :=
  s.took t (turn.snapshot isDirty (some delay) text)

theorem timers_turned {turn : Turn T} (h : turn.changed = true) :
    (turned isDirty delay s t turn text).timers =
      (t.apply (s.clockwork.wake s.clock) turn.fired).1 := by
  rw [Service.timers_took, Turn.snapshot, if_pos h]

theorem Timed.rest {command : Command (EditorEvent T)} {turn : Turn T}
    (timed : Timed delay ms turn.mode s) (hhead : s.queue.head? = some command)
    (hevent : ∀ alarm, command ≠ .timeout alarm)
    (htimers : (turned isDirty delay s s.timers turn text).timers = s.timers)
    (hnames : Handler.runNames turn.fired = []) :
    Timed delay (ms ++ [⟨s.clock, turn.snapshot isDirty (some delay) text⟩]) turn.mode
      (turned isDirty delay s s.timers turn text) := by
  have hs : Shows isDirty (some delay) (turn.snapshot isDirty (some delay) text) turn.mode := rfl
  refine timed.keep hhead (fun alarm h => absurd h (hevent alarm)) htimers rfl rfl ?_
  refine fun dirty clock hmode entered => entered.concat ((hs.timed dirty).mpr hmode) fun h => ?_
  have hactive := (enters_snapshot_iff.mp h).2
  simp [hnames] at hactive

theorem timed_of_enters (keeps : s.clockwork.Keeps delay) {turn : Turn T} {dirty : Bool}
    (rest : t.AtRest) (hgeneration : t.generation = s.timers.generation) (dated : s.Dated)
    (hmode : turn.mode = .editable dirty false) (hchanged : turn.changed = true)
    (happly : (s.timers.apply (s.clockwork.wake s.clock) turn.fired).1 =
      (t.arm (s.clockwork.wake s.clock) (timedState dirty) delay).1)
    (hactive : "notifyActive" ∈ Handler.runNames turn.fired) :
    Timed delay (ms ++ [⟨s.clock, turn.snapshot isDirty (some delay) text⟩]) turn.mode
      (turned isDirty delay s s.timers turn text) := by
  rw [hmode]
  refine timed_of_arms rest ((timers_turned hchanged).trans happly) keeps (fun alarm hmem => ?_)
    rfl (enters_snapshot_iff.mpr ⟨hmode, hactive⟩)
  rw [hgeneration]
  exact dated alarm (List.mem_of_mem_tail hmem)

theorem timed_of_leaves {turn : Turn T} {claimed : Timers} (rest : t.AtRest)
    (hgeneration : t.generation = s.timers.generation) (dated : s.Dated)
    (hmode : ∀ dirty, turn.mode ≠ .editable dirty false) (hchanged : turn.changed = true)
    (happly : (claimed.apply (s.clockwork.wake s.clock) turn.fired).1 = t) :
    Timed delay ms turn.mode (turned isDirty delay s claimed turn text) := by
  have htimers : (turned isDirty delay s claimed turn text).timers = _ :=
    (timers_turned hchanged).trans happly
  refine timed_of_rests hmode (htimers ▸ rest) ?_
  exact dated.mono (fun _ hmem => List.mem_of_mem_tail hmem) (by rw [htimers, hgeneration])

theorem active_mem_soil (dirty idle : Bool) (content : T) : "notifyActive" ∈
    Handler.runNames (soil (some delay) (departures dirty idle (some delay)) content).fired := by
  rw [runNames_soil]
  simp [activeNames]

theorem active_mem_openUp {before : List Fired} (h : Handler.runNames before = []) :
    "notifyActive" ∈ Handler.runNames (openUp (T := T) (some delay) before).fired := by
  rw [runNames_openUp _ h]
  simp [activeNames]

theorem Timed.move {event : EditorEvent T} {next : Turn T} (timed : Timed delay ms mode s)
    (keeps : s.clockwork.Keeps delay)
    (moves : Moves isDirty (some delay) context mode (.event event) next)
    (hhead : s.queue.head? = some (.send event)) :
    Timed delay (ms ++ [⟨s.clock, next.snapshot isDirty (some delay) text⟩]) next.mode
      (turned isDirty delay s s.timers next text) := by
  cases moves with
  | stays => exact timed.rest hhead (by simp) (Service.timers_took ..) rfl
  | accepts => exact timed.rest hhead (by simp) (timers_turned rfl) rfl
  | soils =>
    obtain ⟨rest, hgeneration⟩ := timed.departed
    exact timed_of_enters keeps rest hgeneration timed.dated rfl rfl (apply_soil ..)
      (active_mem_soil ..)
  | resets =>
    obtain ⟨rest, hgeneration⟩ := timed.departed
    exact timed_of_enters keeps rest hgeneration timed.dated rfl rfl (apply_openUp ..)
      (active_mem_openUp (runNames_departures ..))
  | closes =>
    obtain ⟨rest, hgeneration⟩ := timed.departed
    exact timed_of_leaves rest hgeneration timed.dated (by simp [closeDown]) rfl
      (apply_closeDown ..)
  | shifts =>
    exact timed_of_leaves (timed.rests (by simp)) rfl timed.dated (by simp) rfl rfl
  | opens =>
    exact timed_of_enters keeps (timed.rests (by simp)) rfl timed.dated rfl rfl rfl
      (active_mem_openUp rfl)

def tire (dirty : Bool) (context : EditorContext T) : Turn T where
  mode := .editable dirty true
  context
  fired := [.cancel (timedState dirty), .run "notifyIdle"]

theorem turn_tire (isDirty : DirtyTest T) (delay : Duration) (dirty : Bool)
    (context : EditorContext T) :
    turn isDirty (some delay) context (.editable dirty false) (.after (timedState dirty)) =
      tire dirty context := by
  simp [turn, Mode.counting, tire]

theorem timed_tire (dirty : Bool) (rest : t.AtRest)
    (hgeneration : t.generation = s.timers.generation) (dated : s.Dated) :
    Timed delay ms (.editable dirty true) (turned isDirty delay s t (tire dirty context) text) := by
  have happly : (t.apply (s.clockwork.wake s.clock) (tire dirty context).fired).1 = t :=
    congrArg Prod.fst (rest.cancel (timedState dirty))
  exact timed_of_leaves rest hgeneration dated (by simp [tire]) rfl happly

end

end Statechart.Editor
