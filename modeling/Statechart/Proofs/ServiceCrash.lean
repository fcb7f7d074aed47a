import Statechart.Proofs.ServiceSession

/-! Crashes of a handler. Until a call crashes, a service handles all that comes to it. The crash
takes the service along: its step stands, but what waits in the queue is dropped and whatever comes
later is refused, while the service, which nobody stopped, goes on to count as running. -/
namespace Statechart.Service

variable {C E W : Type} [Event E]

namespace Handled

/-- The command led to a step, which was committed, and then a call for it crashed. The queue was
dropped, and the sender of an event was told that the service has stopped. -/
structure Crashed (m : Chart C E) (handler : Handler W C) (x : Handled C E W) : Prop where
  led : ∃ trigger, x.trigger? = some trigger ∧
    m.transition x.before.current trigger = .ok x.after.current
  commits : x.after.commits = x.before.commits + 1
  crashes : handler.Crashes x.after.current.calls x.before.world
  lost : x.after.status = .lost
  queue : x.after.queue = []
  reply : x.answer.reply = stepReply? (.error .stopped) x.command

/-- The command left the queue, and nothing else has changed. -/
structure Refused (x : Handled C E W) : Prop where
  same : x.after = { x.before with queue := x.before.queue.tail }
  answer : x.answer = refuse x.command

variable {m : Chart C E} {handler : Handler W C} {x : Handled C E W} {made : List (String × C)}

theorem Steps.not_crashed {trigger : Trigger E} (steps : x.Steps m handler trigger made) :
    ¬x.Crashed m handler := by
  intro crashed
  obtain ⟨error, calls, -⟩ := steps.acts
  exact calls.calm crashed.crashes

theorem Follows.not_crashed (follows : x.Follows m handler made) : ¬x.Crashed m handler := by
  cases follows with
  | quiet quiet =>
    rintro ⟨⟨trigger, hled, -⟩, -⟩
    rw [quiet.idle] at hled
    cases hled
  | steps steps => exact steps.not_crashed

theorem not_crashed_of_follow {log : List (Handled C E W)}
    (follow : ∀ x ∈ log, ∃ made, x.Follows m handler made) :
    ∀ x ∈ log, ¬x.Crashed m handler := by
  intro x hx
  obtain ⟨made, follows⟩ := follow x hx
  exact follows.not_crashed

theorem Refused.not_steps (refused : x.Refused) {trigger : Trigger E} :
    ¬x.Steps m handler trigger made := by
  intro steps
  have hcommits := steps.commits
  rw [refused.same] at hcommits
  exact absurd hcommits (Nat.ne_of_lt (Nat.lt_succ_self _))

theorem Steps.reply_ne {trigger : Trigger E} (steps : x.Steps m handler trigger made) :
    x.answer.reply ≠ some (.state (.error .stopped)) := by
  obtain ⟨error, -, hreply⟩ := steps.acts
  rw [hreply]
  cases x.command <;> cases error <;> simp [stepReply?]

end Handled

variable {m : Chart C E} {handler : Handler W C} {world : W} {arrived : List (Command E)}
  {log : List (Handled C E W)} {s : Service C E W}

theorem step_crashes {trigger : Trigger E} {next : Snapshot C}
    (h : s.chart.transition s.current trigger = .ok next)
    (crashes : s.handler.Crashes next.calls s.world) :
    ∃ world, (s.step trigger).1 = { (s.commit next).1 with
        world, status := .lost, timers := (s.commit next).1.timers.cancelAll, queue := [] } ∧
      (s.step trigger).2.1 = .error .stopped := by
  refine ⟨(s.handler.perform next s.world).world, ?_⟩
  unfold step
  rw [h]
  dsimp only
  rw [Handler.perform_crashed_iff.mpr crashes]
  exact ⟨rfl, rfl⟩

/-- A running service either does what the command at the head of its queue asks for, or is lost
over it. -/
theorem follows_or_crashed (tree : m.IsTree) {s' : Service C E W} (hchart : s.chart = m)
    (hs : ∃ active, m.Settled active s.current.configuration) (running : s.status = .running)
    {command : Command E} {answer : Answer C} (hhead : s.queue.head? = some command)
    (hnext : s.next? = some (s', answer)) :
    (s'.status = .running ∧
        ∃ made, (⟨s, command, answer, s'⟩ : Handled C E W).Follows m s.handler made) ∨
      (⟨s, command, answer, s'⟩ : Handled C E W).Crashed m s.handler := by
  by_cases calm : ∀ {trigger next}, s.triggerOf? command = some trigger →
      m.transition s.current trigger = .ok next → ¬s.handler.Crashes next.calls s.world
  · obtain ⟨made, follows, -, running'⟩ := follows_next tree hchart hs running calm hhead hnext
    exact .inl ⟨running', made, follows⟩
  · push Not at calm
    obtain ⟨trigger, next, hled, htransition, crashes⟩ := calm
    obtain ⟨rfl, rfl⟩ := handle_of_next? hhead hnext
    rcases handle_running (s := { s with queue := s.queue.tail }) running command with
      ⟨hidle, -⟩ | ⟨trigger', timers, hled', hstep, hreply⟩
    · exact absurd (hidle.symm.trans hled) (by simp)
    · obtain rfl : trigger = trigger' := Option.some.inj (hled.symm.trans hled')
      obtain ⟨world, hlost, hresult⟩ :=
        step_crashes (s := { s with timers, queue := s.queue.tail }) (hchart ▸ htransition) crashes
      rw [hlost] at hstep
      rw [hresult] at hreply
      refine .inr ⟨⟨trigger, hled, ?_⟩, ?_, ?_, ?_, ?_, hreply⟩
      all_goals rw [hstep]
      · exact htransition
      · rfl
      · exact crashes

/-- What has become of a service in a session. Either it runs, and each command did what it asks
for; or the calls for one of them crashed, those that waited then were dropped, and those that have
come since were refused. -/
inductive Fate (m : Chart C E) (handler : Handler W C) :
    List (Command E) → List (Handled C E W) → Service C E W → Prop where
  | runs {arrived : List (Command E)} {log : List (Handled C E W)} {s : Service C E W} :
      s.status = .running → arrived = log.map (·.command) ++ s.queue →
      (∀ x ∈ log, ∃ made, x.Follows m handler made) → Fate m handler arrived log s
  | lost {arrived : List (Command E)} {earlier later : List (Handled C E W)}
      {x : Handled C E W} {s : Service C E W} :
      s.status = .lost →
      arrived = (earlier ++ [x]).map (·.command) ++ x.before.queue.tail ++
        later.map (·.command) ++ s.queue →
      (∀ y ∈ earlier, ∃ made, y.Follows m handler made) → x.Crashed m handler →
      (∀ y ∈ later, y.Refused) → Fate m handler arrived (earlier ++ x :: later) s

theorem fate_start {options : Options} {clockwork : Clockwork}
    (h : (Service.start m handler options clockwork world).result = .ok s) :
    Fate m handler [] [] s := by
  obtain ⟨-, rfl⟩ := start_eq_ok_iff.mp h
  exact .runs rfl rfl (by simp)

theorem Fate.arrive (fate : Fate m handler arrived log s) (commands : List (Command E))
    {s' : Service C E W} (hstatus : s'.status = s.status)
    (hqueue : s'.queue = s.queue ++ commands) :
    Fate m handler (arrived ++ commands) log s' := by
  cases fate with
  | runs running harrived follows =>
    refine .runs (hstatus.trans running) ?_ follows
    rw [hqueue, harrived, List.append_assoc]
  | lost lost harrived follows crashed refused =>
    refine .lost (hstatus.trans lost) ?_ follows crashed refused
    rw [hqueue, harrived, List.append_assoc]

theorem Fate.next (tree : m.IsTree) (fate : Fate m handler arrived log s) {s' : Service C E W}
    (hchart : s.chart = m) (hs : ∃ active, m.Settled active s.current.configuration)
    (hhandler : s.handler = handler) {command : Command E} {answer : Answer C}
    (hhead : s.queue.head? = some command) (hnext : s.next? = some (s', answer)) :
    Fate m handler arrived (log ++ [⟨s, command, answer, s'⟩]) s' := by
  obtain ⟨rest, hqueue⟩ := List.head?_eq_some_iff.mp hhead
  cases fate with
  | runs running harrived follows =>
    subst hhandler
    rcases follows_or_crashed tree hchart hs running hhead hnext with
      ⟨running', made, hfollows⟩ | hcrashed
    · have hqueue' : s'.queue = s.queue.tail := hfollows.queue
      refine .runs running' ?_
        (List.forall_mem_append.mpr ⟨follows, by simpa using ⟨made, hfollows⟩⟩)
      rw [harrived, hqueue', hqueue, List.map_append, List.append_assoc]
      rfl
    · have hqueue' : s'.queue = [] := hcrashed.queue
      refine .lost hcrashed.lost ?_ follows hcrashed (by simp)
      rw [harrived, hqueue', hqueue]
      simp
  | @lost earlier later x _ lost harrived follows crashed refused =>
    have hhandle := next?_eq hhead hnext
    rw [handle_refused (s := { s with queue := s.queue.tail }) (by simp [lost])] at hhandle
    obtain ⟨rfl, rfl⟩ := Prod.mk.inj hhandle
    rw [List.append_assoc, List.cons_append]
    refine .lost lost ?_ follows crashed
      (List.forall_mem_append.mpr ⟨refused, by simpa using ⟨rfl, rfl⟩⟩)
    rw [harrived, hqueue]
    simp

theorem Session.fate (tree : m.IsTree) (session : Session m handler world arrived log s) :
    Fate m handler arrived log s := by
  induction session with
  | start h => exact fate_start h
  | submit command _ ih => exact ih.arrive [command] rfl rfl
  | ring clock _ ih => exact ih.arrive _ rfl rfl
  | @wait arrived _ _ clock _ ih =>
    rw [← List.append_nil arrived]
    exact ih.arrive [] rfl (List.append_nil _).symm
  | next session hhead hnext ih =>
    obtain ⟨ds, run⟩ := session.run
    have held := held_run tree run
    exact ih.next tree held.chart held.settled session.kept.2 hhead hnext

/-- The last of what was handled was an event. It was answered as a step that was taken, unless a
call for it or for a command before it crashed; its sender was then told that the service has
stopped. -/
theorem Fate.answers {x : Handled C E W} (fate : Fate m handler arrived (log ++ [x]) s) {event : E}
    (hcommand : x.command = .send event) :
    ((∃ made, x.Steps m handler (.event event) made) ↔ ∀ y ∈ log ++ [x], ¬y.Crashed m handler) ∧
      (x.answer.reply = some (.state (.error .stopped)) ↔
        ∃ y ∈ log ++ [x], y.Crashed m handler) := by
  have htrigger : x.trigger? = some (.event event) := by rw [Handled.trigger?, hcommand]; rfl
  generalize hall : log ++ [x] = all at fate
  cases fate with
  | runs running harrived follows =>
    have hnone := Handled.not_crashed_of_follow follows
    obtain ⟨made, hfollows⟩ := follows x (hall ▸ List.mem_concat_self)
    cases hfollows with
    | quiet quiet => exact absurd (quiet.idle.symm.trans htrigger) (by simp)
    | @steps trigger _ steps =>
      obtain rfl : trigger = .event event := Option.some.inj (steps.led.symm.trans htrigger)
      refine ⟨iff_of_true ⟨made, steps⟩ hnone, iff_of_false steps.reply_ne ?_⟩
      rintro ⟨y, hy, hcrashed⟩
      exact hnone y hy hcrashed
  | @lost earlier later y _ lost harrived follows crashed refused =>
    have hy : y ∈ earlier ++ y :: later := List.mem_append_right _ List.mem_cons_self
    suffices hx : (∀ made, ¬x.Steps m handler (.event event) made) ∧
        x.answer.reply = some (.state (.error .stopped)) from
      ⟨iff_of_false (fun ⟨made, steps⟩ => hx.1 made steps) fun hnone => hnone y hy crashed,
        iff_of_true hx.2 ⟨y, hy, crashed⟩⟩
    rcases concat_eq_append_cons hall with ⟨-, -, rfl⟩ | ⟨between, rfl, -⟩
    · refine ⟨fun made steps => steps.not_crashed crashed, ?_⟩
      rw [crashed.reply, hcommand]
      rfl
    · have hrefused : x.Refused := refused x List.mem_concat_self
      refine ⟨fun made => hrefused.not_steps, ?_⟩
      rw [hrefused.answer, hcommand]
      rfl

theorem Session.answers (tree : m.IsTree) (session : Session m handler world arrived log s)
    {event : E} (hhead : s.queue.head? = some (.send event)) :
    ∃ s' answer, s.next? = some (s', answer) ∧
      let x : Handled C E W := ⟨s, .send event, answer, s'⟩
      ((∃ made, x.Steps m handler (.event event) made) ↔
          ∀ y ∈ log ++ [x], ¬y.Crashed m handler) ∧
        (answer.reply = some (.state (.error .stopped)) ↔
          ∃ y ∈ log ++ [x], y.Crashed m handler) := by
  obtain ⟨rest, hqueue⟩ := List.head?_eq_some_iff.mp hhead
  have hnext : s.next? = some ({ s with queue := rest }.handle (.send event)) := by
    rw [next?, hqueue]
  exact ⟨_, _, hnext, ((session.next hhead hnext).fate tree).answers rfl⟩

/-- A service that nobody stopped counts as running. It does what each command asks for until the
calls for one of them crash. Then it is lost: what waited in its queue was dropped, and all later
commands are refused. So the next event is answered by the chart just when no crash has come before
or comes with it, and otherwise as if the service had stopped. -/
theorem lost_by_crash {spec : ChartSpec C E} (built : spec.build = .ok m)
    (session : Session m handler world arrived log s) :
    s.isRunning = true ∧
      (s.status = .running ↔ ∀ x ∈ log, ¬x.Crashed m handler) ∧
      (s.status = .running → arrived = log.map (·.command) ++ s.queue ∧
        ∀ x ∈ log, ∃ made, x.Follows m handler made) ∧
      (s.status ≠ .running → ∃ earlier x later, log = earlier ++ x :: later ∧
        (∀ y ∈ earlier, ∃ made, y.Follows m handler made) ∧ x.Crashed m handler ∧
        (∀ y ∈ later, y.Refused) ∧
        arrived = (earlier ++ [x]).map (·.command) ++ x.before.queue.tail ++
          later.map (·.command) ++ s.queue) ∧
      ∀ event, s.queue.head? = some (.send event) → ∃ s' answer, s.next? = some (s', answer) ∧
        let x : Handled C E W := ⟨s, .send event, answer, s'⟩
        ((∃ made, x.Steps m handler (.event event) made) ↔
            ∀ y ∈ log ++ [x], ¬y.Crashed m handler) ∧
          (answer.reply = some (.state (.error .stopped)) ↔
            ∃ y ∈ log ++ [x], y.Crashed m handler) := by
  have tree := ChartSpec.isTree_of_build built
  cases session.fate tree with
  | runs running harrived follow =>
    exact ⟨by rw [isRunning, running]; rfl,
      iff_of_true running (Handled.not_crashed_of_follow follow), fun _ => ⟨harrived, follow⟩,
      fun hlost => absurd running hlost, fun _ hhead => session.answers tree hhead⟩
  | @lost earlier later x _ lost harrived follow crashed refused =>
    have hlost : s.status ≠ .running := by simp [lost]
    have hx : x ∈ earlier ++ x :: later := List.mem_append_right _ List.mem_cons_self
    exact ⟨by rw [isRunning, lost]; rfl, iff_of_false hlost fun hnone => hnone x hx crashed,
      fun running => absurd running hlost,
      fun _ => ⟨earlier, x, later, rfl, follow, crashed, refused, harrived⟩,
      fun _ hhead => session.answers tree hhead⟩

/-- An application that crashes when it is told that the user is idle. -/
def brittle : Handler (List String) (EditorContext Unit) where
  handle name _ called :=
    if name = "notifyIdle" then (.crashed, called) else (.done, called ++ [name])

def brittleEditor : Service (EditorContext Unit) (EditorEvent Unit) (List String) :=
  { openEditor with handler := brittle }

theorem start_brittleEditor :
    (Service.start idleChart brittle {} .exact []).result = .ok brittleEditor := rfl

def idleAlarm : Alarm := ⟨⟨"editable.pristine.active"⟩, 1⟩

def restingEditor : Service (EditorContext Unit) (EditorEvent Unit) (List String) :=
  { brittleEditor with
    clock := 1000
    timers := { brittleEditor.timers with sleeping := [] }
    queue := [.timeout idleAlarm] }

theorem ring_brittleEditor : brittleEditor.timers.ring 1000 =
    ([idleAlarm], { brittleEditor.timers with sleeping := [] }) := by
  decide +kernel

def forsakenEditor : Service (EditorContext Unit) (EditorEvent Unit) (List String) :=
  ({ restingEditor with queue := [] }.handle (.timeout idleAlarm)).1

theorem session_forsakenEditor :
    ∃ x : Handled (EditorContext Unit) (EditorEvent Unit) (List String),
      Session idleChart brittle [] [.timeout idleAlarm] [x] forsakenEditor := by
  have session := (Session.start start_brittleEditor).ring 1000
  rw [ringAt, ring_brittleEditor] at session
  have hhead : restingEditor.queue.head? = some (.timeout idleAlarm) := rfl
  exact ⟨_, Session.next session hhead rfl⟩

theorem forsakenEditor_lost : ∃ arrived log,
    Session idleChart brittle [] arrived log (forsakenEditor.submit (.send .foreignLockAdded)) ∧
      (∃ x ∈ log, x.Crashed idleChart brittle) ∧
      ∃ s' answer, (forsakenEditor.submit (.send .foreignLockAdded)).next? = some (s', answer) ∧
        answer.reply = some (.state (.error .stopped)) := by
  have built := Editor.build_spec (T := Unit) (fun _ _ => .clean)
    (some { Duration.zero with secs := 1 })
  obtain ⟨x, session⟩ := session_forsakenEditor
  have session := session.submit (.send .foreignLockAdded)
  obtain ⟨-, -, -, lost, answers⟩ := lost_by_crash built session
  have hlost : (forsakenEditor.submit (.send .foreignLockAdded)).status ≠ .running := by
    decide +kernel
  obtain ⟨earlier, y, later, hlog, -, crashed, -⟩ := lost hlost
  have hy : y ∈ [x] := hlog ▸ List.mem_append_right _ List.mem_cons_self
  obtain ⟨s', answer, hnext, -, hreply⟩ := answers .foreignLockAdded rfl
  exact ⟨_, _, session, ⟨y, hy, crashed⟩, s', answer, hnext,
    hreply.mpr ⟨y, List.mem_append_left _ hy, crashed⟩⟩

theorem forsakenEditor_refuses :
    (∃ arrived log, Session idleChart brittle [] arrived log forsakenEditor) ∧
      forsakenEditor.isRunning = true ∧
      (forsakenEditor.handle (.send .foreignLockAdded)).2.reply =
        some (.state (.error .stopped)) ∧
      (forsakenEditor.handle .history).2.reply = some (.history (.error .stopped)) := by
  obtain ⟨x, session⟩ := session_forsakenEditor
  have hlost : forsakenEditor.status = .lost := by decide +kernel
  have hrefused := handle_refused (s := forsakenEditor) (by simp [hlost])
  refine ⟨⟨_, _, session⟩, by decide +kernel, ?_, ?_⟩
  · rw [hrefused]
    rfl
  · rw [hrefused]
    rfl

end Statechart.Service
