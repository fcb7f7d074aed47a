import Statechart.Proofs.Deeds
import Statechart.Service

/-! Runs of a service. Nothing is assumed of its surroundings: any command may come at any time,
also an alarm that was never armed, and the handler may fail or crash in any way. -/
namespace Statechart

variable {C E W : Type} [Event E]

/-- A sleep lasts as long as the delay it is for, and every reading is dated at the epoch. -/
def Clockwork.exact : Clockwork := ⟨fun _ => .epoch, Duration.toNanos⟩

namespace Service

omit [Event E] in
theorem followed_commit {s : Service C E W} (sound : s.timers.Sound) {next : Snapshot C}
    (h : next.changed = false → next.fired = []) :
    Timers.Followed s.timers (s.commit next).1.timers next.fired := by
  unfold commit
  dsimp only
  split
  · exact Timers.followed_apply sound _ _
  · rename_i hc
    rw [h (by simpa using hc)]
    exact Timers.followed_apply sound (s.clockwork.wake s.clock) []

/-- The step to a snapshot, which arms the timers of a generation that is new. -/
def deed (s : Service C E W) (cause : Option Alarm) (next : Snapshot C) : Deed C where
  cause
  next
  armed := (s.commit next).1.timers.armed.filter (s.timers.generation < ·.generation)

def deed? (s : Service C E W) (cause : Option Alarm) (trigger : Trigger E) : Option (Deed C) :=
  (s.chart.transition s.current trigger).toOption.map (s.deed cause)

def deedOf? (s : Service C E W) (command : Command E) : Option (Deed C) :=
  match s.status, command with
  | .running, .send event => s.deed? none (.event event)
  | .running, .timeout alarm =>
    (s.timers.claim alarm).bind fun timers =>
      { s with timers }.deed? (some alarm) (.after alarm.state)
  | _, _ => none

/-- The services that a chart runs in, with the trace of the steps taken so far. -/
inductive Run (m : Chart C E) : List (Deed C) → Service C E W → Prop where
  | start {handler : Handler W C} {options : Options} {clockwork : Clockwork} {world : W}
      {s : Service C E W} : (start m handler options clockwork world).result = .ok s →
      Run m [⟨none, s.current, s.timers.armed⟩] s
  | handle {ds : List (Deed C)} {s : Service C E W} (command : Command E) :
      Run m ds s → Run m ((s.deedOf? command).toList ++ ds) (s.handle command).1
  | requeue {ds : List (Deed C)} {s : Service C E W} (queue : List (Command E)) :
      Run m ds s → Run m ds { s with queue }
  | wait {ds : List (Deed C)} {s : Service C E W} (clock : Nat) :
      Run m ds s → Run m ds { s with clock }
  | ring {ds : List (Deed C)} {s : Service C E W} (clock : Nat) :
      Run m ds s → Run m ds (s.ringAt clock)
  | stop {ds : List (Deed C)} {s : Service C E W} : Run m ds s → Run m ds s.stop.1
  | release {ds : List (Deed C)} {s : Service C E W} : Run m ds s → Run m ds s.release.1

variable {m : Chart C E}

theorem Run.next? {ds : List (Deed C)} {s s' : Service C E W} {answer : Answer C}
    (run : Run m ds s) (h : s.next? = some (s', answer)) : ∃ ds', Run m (ds' ++ ds) s' := by
  unfold Service.next? at h
  split at h
  · simp at h
  · rename_i command rest hqueue
    obtain ⟨rfl, -⟩ := Prod.mk.inj (Option.some.inj h)
    exact ⟨_, (run.requeue rest).handle command⟩

theorem Run.handleAll {ds : List (Deed C)} {s : Service C E W} (run : Run m ds s)
    (commands : List (Command E)) : ∃ ds', Run m (ds' ++ ds) (s.handleAll commands).1 := by
  induction commands generalizing ds s with
  | nil => exact ⟨[], run⟩
  | cons command rest ih =>
    obtain ⟨ds', h⟩ := ih (run.handle command)
    exact ⟨ds' ++ (s.deedOf? command).toList, by simpa [Service.handleAll] using h⟩

theorem Run.advanceTo {ds : List (Deed C)} {s : Service C E W} (run : Run m ds s)
    (rounds reading : Nat) : ∃ ds', Run m (ds' ++ ds) (s.advanceTo rounds reading).1 := by
  induction rounds generalizing ds s with
  | zero => exact ⟨[], run.wait reading⟩
  | succ rounds ih =>
    unfold Service.advanceTo
    cases s.timers.nextDue with
    | none => exact ⟨[], run.wait reading⟩
    | some due =>
      dsimp only
      split
      · have rung := run.ring (max s.clock due)
        obtain ⟨ds', h⟩ := (rung.requeue []).handleAll (s.ringAt (max s.clock due)).queue
        obtain ⟨ds'', h⟩ := ih h
        exact ⟨ds'' ++ ds', by simpa [Service.drain] using h⟩
      · exact ⟨[], run.wait reading⟩

/-- What holds of a service and its trace on every run. The trace has a step for each commit. -/
structure Held (m : Chart C E) (ds : List (Deed C)) (s : Service C E W) : Prop where
  chart : s.chart = m
  last : ds.head?.map (·.next) = some s.current
  commits : ds.length = s.commits + 1
  settled : ∃ active, m.Settled active s.current.configuration
  kept : m.Kept ds (m.isActive s.current.configuration) s.timers
  tracked : s.status = .running → m.Tracked ds (m.isActive s.current.configuration) s.timers

omit [Event E] in
theorem Held.stop {ds : List (Deed C)} {s : Service C E W} (held : Held m ds s) :
    Held m ds s.stop.1 where
  chart := held.chart
  last := held.last
  commits := held.commits
  settled := held.settled
  kept := held.kept.cancelAll
  tracked h := by simp [Service.stop] at h

omit [Event E] in
theorem Held.ring {ds : List (Deed C)} {s : Service C E W} (held : Held m ds s) (clock : Nat) :
    Held m ds (s.ringAt clock) where
  chart := held.chart
  last := held.last
  commits := held.commits
  settled := held.settled
  kept := { held.kept with sound := ⟨held.kept.sound.single, held.kept.sound.past⟩ }
  tracked h := { held.tracked h with }

theorem step_cases {s : Service C E W} {trigger : Trigger E} {next : Snapshot C}
    (h : s.chart.transition s.current trigger = .ok next) :
    (s.step trigger).1.chart = s.chart ∧ (s.step trigger).1.current = next ∧
      (s.step trigger).1.commits = s.commits + 1 ∧
      (((s.step trigger).1.status = s.status ∧
          (s.step trigger).1.timers = (s.commit next).1.timers) ∨
        ((s.step trigger).1.status = .lost ∧
          (s.step trigger).1.timers = (s.commit next).1.timers.cancelAll)) := by
  unfold step
  rw [h]
  dsimp only
  split
  · exact ⟨rfl, rfl, rfl, .inl ⟨rfl, rfl⟩⟩
  · exact ⟨rfl, rfl, rfl, .inl ⟨rfl, rfl⟩⟩
  · exact ⟨rfl, rfl, rfl, .inr ⟨rfl, rfl⟩⟩

/-- A step of a service leads from the registry as it was before the alarm was claimed to the
registry as it is committed. -/
theorem leads_deed (tree : m.IsTree) {s : Service C E W} {active : List NodeId}
    (hs : m.Settled active s.current.configuration) (sound : s.timers.Sound) {t : Timers}
    {cause : Option Alarm} {trigger : Trigger E} (hgen : s.timers.generation = t.generation)
    (hcause : ∀ a, cause = some a → a ∈ t.armed ∧ trigger = .after a.state)
    (hmem : ∀ b, b ∈ s.timers.armed ↔ b ∈ t.armed ∧ ∀ a, cause = some a → b.state ≠ a.state) :
    (s.deed cause (m.step s.current trigger active)).Leads m
      (m.isActive s.current.configuration) t
      (s.commit (m.step s.current trigger active)).1.timers := by
  have hfired : (m.step s.current trigger active).changed = false →
      (m.step s.current trigger active).fired = [] := Chart.fired_of_unchanged
  have followed := followed_commit sound hfired
  refine {
    tells := fun hn hd => tree.tells_step hn hd hs trigger
    delayed := fun ⟨_, hf⟩ => Chart.delayed_of_step hf
    exited := fun hn hd hx => tree.active_of_cancel hn hd hs hx
    claimed := fun hc => (hcause _ hc).1
    earned := fun {a} hc hch => ?_
    sound := followed.sound
    generation := hgen ▸ followed.generation
    origin := fun {a} ha => ?_
    kept := fun {a} ha hc hx he => ?_
    started := fun ⟨delay, hf⟩ => followed.started _ delay hf
    fresh := fun {a} ha => ?_ }
  · dsimp only [deed] at hch
    rw [(hcause a hc).2] at hch
    exact tree.active_of_changed hs hch
  · rcases followed.origin a ha with ⟨hold, hx, he⟩ | ⟨hnew, hs⟩
    · obtain ⟨hold, hne⟩ := (hmem a).mp hold
      exact .inl ⟨hold, fun ⟨b, hb, hab⟩ => hne b hb hab.symm, hx, fun ⟨d, hd⟩ => he d hd⟩
    · exact .inr ⟨List.mem_filter.mpr ⟨ha, by simpa using hnew⟩, hs⟩
  · refine followed.kept a ((hmem a).mpr ⟨ha, fun b hb hab => hc ⟨b, hb, hab.symm⟩⟩) hx ?_
    exact fun d hd => he ⟨d, hd⟩
  · obtain ⟨hmem, hlt⟩ := List.mem_filter.mp ha
    exact ⟨hgen ▸ (by simpa using hlt), followed.sound.past a hmem⟩

/-- A service takes a step whenever it is given a trigger, as the chart never refuses one. -/
theorem held_step (tree : m.IsTree) {s : Service C E W} (hchart : s.chart = m)
    (hs : ∃ active, m.Settled active s.current.configuration) (sound : s.timers.Sound)
    {ds : List (Deed C)} (hcommits : ds.length = s.commits + 1) {t : Timers}
    (kept : m.Kept ds (m.isActive s.current.configuration) t)
    (tracked : m.Tracked ds (m.isActive s.current.configuration) t) (cause : Option Alarm)
    (trigger : Trigger E) (hgen : s.timers.generation = t.generation)
    (hcause : ∀ a, cause = some a → a ∈ t.armed ∧ trigger = .after a.state)
    (hmem : ∀ b, b ∈ s.timers.armed ↔ b ∈ t.armed ∧ ∀ a, cause = some a → b.state ≠ a.state) :
    ∃ d, s.deed? cause trigger = some d ∧ Held m (d :: ds) (s.step trigger).1 := by
  obtain ⟨active, hs⟩ := hs
  have leads := leads_deed tree hs sound hgen hcause hmem
  have htransition : s.chart.transition s.current trigger =
      .ok (m.step s.current trigger active) := by
    rw [hchart]
    exact tree.transition_settled hs trigger
  refine ⟨s.deed cause (m.step s.current trigger active), by rw [deed?, htransition]; rfl, ?_⟩
  obtain ⟨hchart', hcurrent, hcommits', hcases⟩ := step_cases htransition
  refine ⟨hchart'.trans hchart, by rw [hcurrent]; rfl, by simp [hcommits, hcommits'],
    ⟨_, hcurrent ▸ tree.settled_step hs trigger⟩, ?_, fun hrun => ?_⟩
  · rw [hcurrent]
    rcases hcases with ⟨-, htimers⟩ | ⟨-, htimers⟩
    · exact htimers ▸ kept.cons leads
    · exact htimers ▸ (kept.cons leads).cancelAll
  · rw [hcurrent]
    rcases hcases with ⟨-, htimers⟩ | ⟨hlost, -⟩
    · exact htimers ▸ tracked.cons leads
    · simp [hlost] at hrun

theorem Held.handle_cases (tree : m.IsTree) {ds : List (Deed C)} {s : Service C E W}
    (held : Held m ds s) (command : Command E) :
    (s.deedOf? command = none ∧ (s.handle command).1 = s) ∨
      ∃ d, s.deedOf? command = some d ∧ Held m (d :: ds) (s.handle command).1 := by
  by_cases running : s.status = .running
  · cases command with
    | send event =>
      obtain ⟨d, hd, hheld⟩ := held_step tree held.chart held.settled held.kept.sound
        held.commits held.kept (held.tracked running) none (.event event) rfl (by simp) (by simp)
      exact .inr ⟨d, by simpa [deedOf?, running] using hd,
        by simpa [Service.handle, running] using hheld⟩
    | timeout alarm =>
      cases hclaim : s.timers.claim alarm with
      | none => exact .inl (by simp [deedOf?, Service.handle, running, hclaim])
      | some timers =>
        have hmem := fun b => Timers.mem_claim held.kept.sound hclaim (b := b)
        obtain ⟨ha, htimers⟩ := (Timers.claim_eq_some_iff held.kept.sound).mp hclaim
        have hgen : timers.generation = s.timers.generation := by rw [htimers]
        have sound : timers.Sound :=
          held.kept.sound.mono (fun b hb => ((hmem b).mp hb).1) (Nat.le_of_eq hgen.symm)
        obtain ⟨d, hd, hheld⟩ := held_step tree (s := { s with timers }) held.chart held.settled
          sound held.commits held.kept (held.tracked running) (some alarm) (.after alarm.state)
          hgen (by simp [ha]) (by simpa using hmem)
        have hdeed : s.deedOf? (.timeout alarm) =
            { s with timers }.deed? (some alarm) (.after alarm.state) := by
          simp [deedOf?, running, hclaim]
        have hhandle : (s.handle (.timeout alarm)).1 =
            ({ s with timers }.step (.after alarm.state)).1 := by
          simp [Service.handle, running, hclaim]
        rw [hdeed, hhandle]
        exact .inr ⟨d, hd, hheld⟩
    | history => exact .inl (by simp [deedOf?, Service.handle, running])
  · left
    cases hstatus : s.status <;> cases command <;> simp_all [deedOf?, Service.handle]

theorem Held.handle (tree : m.IsTree) {ds : List (Deed C)} {s : Service C E W}
    (held : Held m ds s) (command : Command E) :
    Held m ((s.deedOf? command).toList ++ ds) (s.handle command).1 := by
  rcases held.handle_cases tree command with ⟨hnone, hsame⟩ | ⟨d, hd, hheld⟩
  · rw [hnone, hsame]
    exact held
  · rw [hd]
    exact hheld

theorem leads_initial (tree : m.IsTree) (wake : Duration → Nat) :
    Deed.Leads m (fun _ => false) {}
      ⟨none, m.initial, (({} : Timers).apply wake m.initial.fired).1.armed⟩
      (({} : Timers).apply wake m.initial.fired).1 := by
  have followed := Timers.followed_apply Timers.sound_empty wake m.initial.fired
  refine {
    tells := fun hn hd => tree.tells_initial hn hd
    delayed := fun ⟨_, hf⟩ => Chart.delayed_of_initial hf
    exited := fun _ _ hx => absurd hx Chart.cancel_not_mem_initial
    claimed := fun hc => by simp at hc
    earned := fun hc => by simp at hc
    sound := followed.sound
    generation := followed.generation
    origin := fun {a} ha => ?_
    kept := fun ha => by simp at ha
    started := fun ⟨delay, hf⟩ => followed.started _ delay hf
    fresh := fun {a} ha => ?_ }
  · rcases followed.origin a ha with ⟨hold, -⟩ | ⟨-, hs⟩
    · simp at hold
    · exact .inr ⟨ha, hs⟩
  · rcases followed.origin a ha with ⟨hold, -⟩ | ⟨hnew, -⟩
    · simp at hold
    · exact ⟨hnew, followed.sound.past a ha⟩

omit [Event E] in
def fresh (m : Chart C E) (handler : Handler W C) (options : Options) (clockwork : Clockwork)
    (world : W) : Service C E W where
  chart := m
  handler
  options
  clockwork
  world
  clock := 0
  current := m.initial
  timers := (({} : Timers).apply (clockwork.wake 0) m.initial.fired).1
  journal := .bounded options.historyLimit
  queue := []
  commits := 0
  status := .running

theorem start_eq_ok_iff {handler : Handler W C} {options : Options} {clockwork : Clockwork}
    {world : W} {s : Service C E W} :
    (Service.start m handler options clockwork world).result = .ok s ↔
      (handler.perform m.initial world).outcome = .done ∧
        s = fresh m handler options clockwork (handler.perform m.initial world).world := by
  unfold Service.start
  dsimp only
  cases (handler.perform m.initial world).outcome with
  | done => exact ⟨fun h => ⟨rfl, (Except.ok.inj h).symm⟩, fun h => congrArg Except.ok h.2.symm⟩
  | failed e => exact iff_of_false (fun h => nomatch h) fun h => nomatch h.1
  | crashed => exact iff_of_false (fun h => nomatch h) fun h => nomatch h.1

theorem held_start (tree : m.IsTree) {handler : Handler W C} {options : Options}
    {clockwork : Clockwork} {world : W} {s : Service C E W}
    (h : (Service.start m handler options clockwork world).result = .ok s) :
    Held m [⟨none, s.current, s.timers.armed⟩] s := by
  obtain ⟨-, rfl⟩ := start_eq_ok_iff.mp h
  have leads := leads_initial tree (clockwork.wake 0)
  exact ⟨rfl, rfl, rfl, ⟨_, tree.settled_initial⟩, Chart.kept_nil.cons leads,
    fun _ => Chart.tracked_nil.cons leads⟩

theorem held_run (tree : m.IsTree) {ds : List (Deed C)} {s : Service C E W}
    (run : Service.Run m ds s) : Held m ds s := by
  induction run with
  | start h => exact held_start tree h
  | handle command _ ih => exact ih.handle tree command
  | requeue _ _ ih => exact ⟨ih.chart, ih.last, ih.commits, ih.settled, ih.kept, ih.tracked⟩
  | wait _ _ ih => exact ⟨ih.chart, ih.last, ih.commits, ih.settled, ih.kept, ih.tracked⟩
  | ring clock _ ih => exact ih.ring clock
  | stop _ ih => exact ih.stop
  | release _ ih => exact ih.stop

/-- An alarm leads to a transition only if its state has been active without a break since the end
of the step that armed it. No alarm is armed twice or leads to two steps, and one that leads to no
step changes nothing. -/
theorem alarm_acts_unbroken {spec : ChartSpec C E} (built : spec.build = .ok m)
    {ds : List (Deed C)} {s : Service C E W} (run : Service.Run m ds s) :
    (∀ later d before a, ds = later ++ d :: before → d.cause = some a → d.next.changed = true →
      ∃ i n, m.node? i = some n ∧ n.path = a.state ∧ m.Unbroken i before a) ∧
      (ds.filterMap (·.cause)).Nodup ∧
      (ds.Pairwise fun d e => ∀ a ∈ d.armed, ∀ b ∈ e.armed, b.generation < a.generation) ∧
      ∀ a, s.deedOf? (.timeout a) = none → (s.handle (.timeout a)).1 = s := by
  have tree := ChartSpec.isTree_of_build built
  have held := held_run tree run
  refine ⟨fun _ _ _ _ => held.kept.earned, held.kept.once, held.kept.ordered, fun a h => ?_⟩
  rcases held.handle_cases tree (.timeout a) with ⟨-, hsame⟩ | ⟨d, hd, -⟩
  · exact hsame
  · simp [h] at hd

def silent : Handler Unit Unit := ⟨fun _ _ world => (.done, world)⟩

def idleRelay : Service Unit Signal Unit where
  chart := relay.chart
  handler := silent
  options := {}
  clockwork := .exact
  world := ()
  clock := 0
  current := relay.chart.initial
  timers := (({} : Timers).apply (Clockwork.exact.wake 0) relay.chart.initial.fired).1
  journal := .bounded 1024
  queue := []
  commits := 0
  status := .running

def idleTrace : List (Deed Unit) := [⟨none, idleRelay.current, idleRelay.timers.armed⟩]

theorem start_idleRelay :
    (Service.start relay.chart silent {} .exact ()).result = .ok idleRelay := rfl

theorem run_idleRelay : Run relay.chart idleTrace idleRelay := .start start_idleRelay

def busyRelay : Service Unit Signal Unit := (idleRelay.handle (.send .start)).1

def busyTrace : List (Deed Unit) := (idleRelay.deedOf? (.send .start)).toList ++ idleTrace

theorem run_busyRelay : Run relay.chart busyTrace busyRelay :=
  run_idleRelay.handle (.send Signal.start)

/-- A relay that is left alone comes back from work when its alarm goes off. -/
theorem busyRelay_alarm_unbroken :
    ∃ d, busyRelay.deedOf? (.timeout ⟨⟨"work.left.busy"⟩, 1⟩) = some d ∧ d.next.changed = true ∧
      ∃ i n, relay.chart.node? i = some n ∧ n.path = ⟨"work.left.busy"⟩ ∧
        relay.chart.Unbroken i busyTrace ⟨⟨"work.left.busy"⟩, 1⟩ := by
  have run := run_busyRelay.handle (.timeout ⟨⟨"work.left.busy"⟩, 1⟩)
  have hdeed : (busyRelay.deedOf? (.timeout ⟨⟨"work.left.busy"⟩, 1⟩)).map
      (fun d => (d.cause, d.next.changed)) = some (some ⟨⟨"work.left.busy"⟩, 1⟩, true) := by
    decide +kernel
  obtain ⟨d, hd, hmap⟩ := Option.map_eq_some_iff.mp hdeed
  obtain ⟨hcause, hchanged⟩ := Prod.mk.inj hmap
  rw [hd] at run
  exact ⟨d, hd, hchanged, (alarm_acts_unbroken relay_built run).1 [] d _ _ rfl hcause hchanged⟩

/-- The armed timers of a running service agree with the nodes that are active unless a step has
left one stranded; what can be missing then is never the timer of an active node. -/
theorem registry_agrees_iff {spec : ChartSpec C E} (built : spec.build = .ok m)
    {ds : List (Deed C)} {s : Service C E W} (run : Service.Run m ds s)
    (running : s.status = .running) :
    (m.Agrees ds (m.isActive s.current.configuration) s.timers ↔
      ∀ i n, m.node? i = some n → n.after.isSome = true → ¬m.Stranded i n.path ds) ∧
      ∀ i n, m.node? i = some n → n.after.isSome = true →
        m.isActive s.current.configuration i = true →
        s.timers.isArmed n.path = true ∨ Chart.Claimed n.path ds := by
  have tree := ChartSpec.isTree_of_build built
  have tracked := (held_run tree run).tracked running
  exact ⟨tracked.agrees_iff tree, fun i n => tracked.covered⟩

/-- A relay that goes enters the state with a delay and leaves it in one step; its timer stays
armed. -/
def goneRelay : Service Unit Signal Unit := (idleRelay.handle (.send .go)).1

def goneTrace : List (Deed Unit) := (idleRelay.deedOf? (.send .go)).toList ++ idleTrace

theorem run_goneRelay : Run relay.chart goneTrace goneRelay :=
  run_idleRelay.handle (.send Signal.go)

theorem goneRelay_disagrees :
    ¬relay.chart.Agrees goneTrace (relay.chart.isActive goneRelay.current.configuration)
      goneRelay.timers := by
  intro agrees
  have harmed : ⟨⟨"work.left.busy"⟩, 1⟩ ∈ goneRelay.timers.armed := by decide +kernel
  have hidle : ∀ i ∈ relay.chart.ids,
      (relay.chart.node? i).any (·.path == ⟨"work.left.busy"⟩) = true →
        relay.chart.isActive goneRelay.current.configuration i = false := by decide +kernel
  obtain ⟨i, n, hn, -, hp, hnow⟩ := agrees.owned _ harmed
  have := hidle i (Chart.mem_ids.mpr ⟨n, hn⟩) (by simp [hn, hp])
  simp [this] at hnow

/-- The stray alarm is claimed, and leads to a step that is committed though nothing changes. -/
theorem registry_disagrees : ∃ (ds : List (Deed Unit)) (s : Service Unit Signal Unit),
    Run relay.chart ds s ∧ s.status = .running ∧
      ¬relay.chart.Agrees ds (relay.chart.isActive s.current.configuration) s.timers ∧
      (s.deedOf? (.timeout ⟨⟨"work.left.busy"⟩, 1⟩)).map (·.next.changed) = some false :=
  ⟨goneTrace, goneRelay, run_goneRelay, by decide +kernel, goneRelay_disagrees, by decide +kernel⟩

theorem goneRelay_stranded : goneRelay.status = .running ∧
    ∃ i n, relay.chart.node? i = some n ∧ n.after.isSome = true ∧
      relay.chart.Stranded i n.path goneTrace := by
  have running : goneRelay.status = .running := by decide +kernel
  refine ⟨running, ?_⟩
  by_contra hnone
  refine goneRelay_disagrees ((registry_agrees_iff relay_built run_goneRelay running).1.mpr ?_)
  exact fun i n hn hd hs => hnone ⟨i, n, hn, hd, hs⟩

end Service
end Statechart
