import Mathlib.Data.List.Forall2
import Statechart.Proofs.Calls
import Statechart.Proofs.EditorNodes
import Statechart.Proofs.ServiceRun

/-! Sessions of a service: clients and timers put commands into its queue in any order, and the
service handles them one by one. If its handler never crashes, the service keeps to the fold of its
chart over the triggers that it took from the queue. -/
namespace Statechart

variable {C E W : Type} [Event E]

def Chart.fold (m : Chart C E) (triggers : List (Trigger E)) : Except ChartError (Snapshot C) :=
  triggers.foldlM m.transition m.initial

theorem Chart.fold_append {m : Chart C E} {triggers : List (Trigger E)} {s : Snapshot C}
    (h : m.fold triggers = .ok s) (triggers' : List (Trigger E)) :
    m.fold (triggers ++ triggers') = triggers'.foldlM m.transition s := by
  rw [fold] at h
  rw [fold, List.foldlM_append, h]
  rfl

namespace Service

/-- The trigger that a command leads to. An alarm leads to one if it can be claimed. -/
def triggerOf? (s : Service C E W) : Command E → Option (Trigger E)
  | .send event => some (.event event)
  | .timeout alarm => (s.timers.claim alarm).map fun _ => .after alarm.state
  | .history => none

def quietReply? (s : Service C E W) : Command E → Option (Reply C)
  | .history => some (.history (.ok s.journal))
  | _ => none

def stepReply? (result : Except RunError (Snapshot C)) : Command E → Option (Reply C)
  | .send _ => some (.state result)
  | _ => none

/-- A command that was handled, between the service before it and the one it led to. -/
structure Handled (C E W : Type) where
  before : Service C E W
  command : Command E
  answer : Answer C
  after : Service C E W

/-- The sessions of a service that starts in a world: the commands that have arrived, those that
have been handled, and the service as it is now. -/
inductive Session (m : Chart C E) (handler : Handler W C) (world : W) :
    List (Command E) → List (Handled C E W) → Service C E W → Prop where
  | start {options : Options} {clockwork : Clockwork} {s : Service C E W} :
      (start m handler options clockwork world).result = .ok s → Session m handler world [] [] s
  | submit {arrived : List (Command E)} {log : List (Handled C E W)} {s : Service C E W}
      (command : Command E) : Session m handler world arrived log s →
      Session m handler world (arrived ++ [command]) log (s.submit command)
  | ring {arrived : List (Command E)} {log : List (Handled C E W)} {s : Service C E W}
      (clock : Nat) : Session m handler world arrived log s →
      Session m handler world (arrived ++ (s.timers.ring clock).1.map .timeout) log
        (s.ringAt clock)
  | wait {arrived : List (Command E)} {log : List (Handled C E W)} {s : Service C E W}
      (clock : Nat) : Session m handler world arrived log s →
      Session m handler world arrived log { s with clock }
  | next {arrived : List (Command E)} {log : List (Handled C E W)} {s s' : Service C E W}
      {command : Command E} {answer : Answer C} : Session m handler world arrived log s →
      s.queue.head? = some command → s.next? = some (s', answer) →
      Session m handler world arrived (log ++ [⟨s, command, answer, s'⟩]) s'

namespace Handled

def trigger? (x : Handled C E W) : Option (Trigger E) := x.before.triggerOf? x.command

/-- The command led to no step: it left the queue, and nothing else has changed. -/
structure Quiet (x : Handled C E W) : Prop where
  idle : x.trigger? = none
  same : x.after = { x.before with queue := x.before.queue.tail }
  reply : x.answer.reply = x.before.quietReply? x.command

/-- The command led to a step, which was committed once. The handler got the calls of the step until
one failed, and the sender of an event was told the snapshot, or how that call failed. -/
structure Steps (m : Chart C E) (handler : Handler W C) (x : Handled C E W)
    (trigger : Trigger E) (made : List (String × C)) : Prop where
  led : x.trigger? = some trigger
  transition : m.transition x.before.current trigger = .ok x.after.current
  commits : x.after.commits = x.before.commits + 1
  queue : x.after.queue = x.before.queue.tail
  acts : ∃ error,
    handler.Calls x.after.current.calls x.before.world made error x.after.world ∧
      x.answer.reply = stepReply? (error.elim (.ok x.after.current) fun e => .error (.action e))
        x.command

/-- What became of a command, with the calls that were made for it. -/
inductive Follows (m : Chart C E) (handler : Handler W C) (x : Handled C E W) :
    List (String × C) → Prop where
  | quiet : x.Quiet → Follows m handler x []
  | steps {trigger : Trigger E} {made : List (String × C)} : x.Steps m handler trigger made →
      Follows m handler x made

end Handled

variable {m : Chart C E} {handler : Handler W C} {world : W} {arrived : List (Command E)}
  {log : List (Handled C E W)} {s : Service C E W}

namespace Handled.Follows

variable {x : Handled C E W} {made : List (String × C)}

theorem queue (follows : x.Follows m handler made) : x.after.queue = x.before.queue.tail := by
  cases follows with
  | quiet quiet => rw [quiet.same]
  | steps steps => exact steps.queue

theorem commits (follows : x.Follows m handler made) :
    x.after.commits = x.before.commits + x.trigger?.toList.length := by
  cases follows with
  | quiet quiet => rw [quiet.same, quiet.idle]; rfl
  | steps steps => rw [steps.commits, steps.led]; rfl

theorem current (follows : x.Follows m handler made) :
    x.trigger?.toList.foldlM m.transition x.before.current = .ok x.after.current := by
  cases follows with
  | quiet quiet => rw [quiet.same, quiet.idle]; rfl
  | steps steps =>
    rw [steps.led, Option.toList_some, List.foldlM_cons, steps.transition]
    rfl

theorem world_eq (follows : x.Follows m handler made) :
    x.after.world = handler.after x.before.world made := by
  cases follows with
  | quiet quiet => rw [quiet.same]; rfl
  | steps steps =>
    obtain ⟨error, calls, -⟩ := steps.acts
    exact calls.world_eq

end Handled.Follows

theorem handle_send (running : s.status = .running) (event : E) :
    s.handle (.send event) = ((s.step (.event event)).1,
      ⟨some (.state (s.step (.event event)).2.1), (s.step (.event event)).2.2⟩) := by
  simp only [handle, running]

theorem handle_stale (running : s.status = .running) {alarm : Alarm}
    (h : s.timers.claim alarm = none) :
    s.handle (.timeout alarm) = (s, ⟨none, [.timerStale alarm.state alarm.generation]⟩) := by
  simp only [handle, running, h]

theorem handle_claimed (running : s.status = .running) {alarm : Alarm} {timers : Timers}
    (h : s.timers.claim alarm = some timers) :
    s.handle (.timeout alarm) = (({ s with timers }.step (.after alarm.state)).1,
      ⟨none, ({ s with timers }.step (.after alarm.state)).2.2⟩) := by
  simp only [handle, running, h]

theorem handle_history (running : s.status = .running) :
    s.handle .history = (s, ⟨some (.history (.ok s.journal)), []⟩) := by
  simp only [handle, running]

theorem handle_refused (h : s.status ≠ .running) (command : Command E) :
    s.handle command = (s, refuse command) := by
  cases hstatus : s.status with
  | running => exact absurd hstatus h
  | lost => cases command <;> simp [handle, hstatus]
  | stopped => cases command <;> simp [handle, hstatus]

theorem handle_running (running : s.status = .running) (command : Command E) :
    (s.triggerOf? command = none ∧ (s.handle command).1 = s ∧
        (s.handle command).2.reply = s.quietReply? command) ∨
      ∃ trigger timers, s.triggerOf? command = some trigger ∧
        (s.handle command).1 = ({ s with timers }.step trigger).1 ∧
        (s.handle command).2.reply = stepReply? ({ s with timers }.step trigger).2.1 command := by
  cases command with
  | send event =>
    rw [handle_send running]
    exact .inr ⟨.event event, s.timers, rfl, rfl, rfl⟩
  | timeout alarm =>
    cases hclaim : s.timers.claim alarm with
    | none =>
      rw [handle_stale running hclaim]
      exact .inl ⟨by rw [triggerOf?, hclaim, Option.map_none], rfl, rfl⟩
    | some timers =>
      rw [handle_claimed running hclaim]
      exact .inr ⟨.after alarm.state, timers, by rw [triggerOf?, hclaim, Option.map_some], rfl, rfl⟩
  | history =>
    rw [handle_history running]
    exact .inl ⟨rfl, rfl, rfl⟩

theorem step_kept (s : Service C E W) (trigger : Trigger E) :
    (s.step trigger).1.chart = s.chart ∧ (s.step trigger).1.handler = s.handler := by
  unfold step
  split
  · exact ⟨rfl, rfl⟩
  · dsimp only
    split <;> exact ⟨rfl, rfl⟩

theorem handle_kept (s : Service C E W) (command : Command E) :
    (s.handle command).1.chart = s.chart ∧ (s.handle command).1.handler = s.handler := by
  by_cases running : s.status = .running
  · rcases handle_running running command with ⟨-, hsame, -⟩ | ⟨trigger, timers, -, hstep, -⟩
    · rw [hsame]
      exact ⟨rfl, rfl⟩
    · rw [hstep]
      exact step_kept { s with timers } trigger
  · rw [handle_refused running]
    exact ⟨rfl, rfl⟩

theorem step_calm {trigger : Trigger E} {next : Snapshot C}
    (h : s.chart.transition s.current trigger = .ok next)
    (calm : ¬s.handler.Crashes next.calls s.world) :
    ∃ made error world, s.handler.Calls next.calls s.world made error world ∧
      (s.step trigger).1 = { (s.commit next).1 with world } ∧
      (s.step trigger).2.1 = error.elim (.ok next) fun e => .error (.action e) := by
  obtain ⟨made, error, calls, houtcome⟩ := Handler.perform_calls calm
  refine ⟨made, error, _, calls, ?_⟩
  unfold step
  rw [h]
  dsimp only
  rw [houtcome]
  cases error <;> exact ⟨rfl, rfl⟩

theorem next?_eq {s' : Service C E W} {command : Command E} {answer : Answer C}
    (hhead : s.queue.head? = some command) (hnext : s.next? = some (s', answer)) :
    { s with queue := s.queue.tail }.handle command = (s', answer) := by
  obtain ⟨rest, hqueue⟩ := List.head?_eq_some_iff.mp hhead
  rw [next?, hqueue] at hnext
  rw [hqueue]
  exact Option.some.inj hnext

theorem handle_of_next? {s' : Service C E W} {command : Command E} {answer : Answer C}
    (hhead : s.queue.head? = some command) (hnext : s.next? = some (s', answer)) :
    ({ s with queue := s.queue.tail }.handle command).1 = s' ∧
      ({ s with queue := s.queue.tail }.handle command).2 = answer :=
  Prod.ext_iff.mp (next?_eq hhead hnext)

/-- What a running service has done when it has handled the command at the head of its queue, and
none of the calls for that crashed. -/
theorem follows_next (tree : m.IsTree) {s' : Service C E W}
    (hchart : s.chart = m) (hs : ∃ active, m.Settled active s.current.configuration)
    (running : s.status = .running) {command : Command E}
    (calm : ∀ {trigger next}, s.triggerOf? command = some trigger →
      m.transition s.current trigger = .ok next → ¬s.handler.Crashes next.calls s.world)
    {answer : Answer C} (hhead : s.queue.head? = some command)
    (hnext : s.next? = some (s', answer)) :
    ∃ made, (⟨s, command, answer, s'⟩ : Handled C E W).Follows m s.handler made ∧
      s'.handler = s.handler ∧ s'.status = .running := by
  obtain ⟨rfl, rfl⟩ := handle_of_next? hhead hnext
  rcases handle_running (s := { s with queue := s.queue.tail }) running command with
    ⟨hidle, hsame, hreply⟩ | ⟨trigger, timers, hled, hstep, hreply⟩
  · refine ⟨[], .quiet ⟨hidle, ?_, hreply⟩, by rw [hsame], by rw [hsame]; exact running⟩
    rw [hsame]
  · obtain ⟨active, hs⟩ := hs
    have htransition : s.chart.transition s.current trigger =
        .ok (m.step s.current trigger active) := by
      rw [hchart]
      exact tree.transition_settled hs trigger
    obtain ⟨made, error, world, calls, hcommitted, hresult⟩ :=
      step_calm (s := { s with timers, queue := s.queue.tail }) htransition
        (calm hled (hchart ▸ htransition))
    rw [hresult] at hreply
    rw [hcommitted] at hstep
    refine ⟨made, .steps (?_ : Handled.Steps m s.handler _ trigger made), ?_, ?_⟩
    · refine ⟨hled, ?_, ?_, ?_, error, ?_, ?_⟩
      all_goals rw [hstep]
      · exact hchart ▸ htransition
      · rfl
      · rfl
      · exact calls
      · exact hreply
    · rw [hstep]; rfl
    · rw [hstep]; exact running

theorem Session.kept (session : Session m handler world arrived log s) :
    s.chart = m ∧ s.handler = handler := by
  induction session with
  | start h =>
    obtain ⟨-, rfl⟩ := start_eq_ok_iff.mp h
    exact ⟨rfl, rfl⟩
  | submit _ _ ih => exact ih
  | ring _ _ ih => exact ih
  | wait _ _ ih => exact ih
  | @next _ _ s _ command _ _ hhead hnext ih =>
    have hkept := handle_kept { s with queue := s.queue.tail } command
    rw [next?_eq hhead hnext] at hkept
    exact ⟨hkept.1.trans ih.1, hkept.2.trans ih.2⟩

theorem Session.run (session : Session m handler world arrived log s) : ∃ ds, Run m ds s := by
  induction session with
  | start h => exact ⟨_, .start h⟩
  | submit command _ ih =>
    obtain ⟨ds, run⟩ := ih
    exact ⟨ds, run.requeue _⟩
  | ring clock _ ih =>
    obtain ⟨ds, run⟩ := ih
    exact ⟨ds, run.ring clock⟩
  | wait clock _ ih =>
    obtain ⟨ds, run⟩ := ih
    exact ⟨ds, run.wait clock⟩
  | next _ _ hnext ih =>
    obtain ⟨ds, run⟩ := ih
    obtain ⟨ds', run⟩ := run.next? hnext
    exact ⟨ds' ++ ds, run⟩

/-- What has come of a session: the service still runs, its queue holds what has arrived and was not
handled, and its snapshot, its commits and its world are those that the log leads to. -/
structure Folded (m : Chart C E) (handler : Handler W C) (world : W) (arrived : List (Command E))
    (log : List (Handled C E W)) (s : Service C E W) : Prop where
  handled : s.handler = handler
  running : s.status = .running
  queue : arrived = log.map (·.command) ++ s.queue
  commits : s.commits = (log.filterMap (·.trigger?)).length
  current : m.fold (log.filterMap (·.trigger?)) = .ok s.current
  calls : ∃ batches, List.Forall₂ (Handled.Follows m handler) log batches ∧
    s.world = handler.after world (m.initial.calls ++ batches.flatten)

theorem folded_start {options : Options} {clockwork : Clockwork} (returns : handler.Returns)
    (h : (Service.start m handler options clockwork world).result = .ok s) :
    Folded m handler world [] [] s := by
  obtain ⟨hdone, rfl⟩ := start_eq_ok_iff.mp h
  obtain ⟨made, error, calls, houtcome⟩ :=
    Handler.perform_calls (returns.calm m.initial.calls world)
  cases error with
  | some e => rw [hdone] at houtcome; cases houtcome
  | none =>
    refine ⟨rfl, rfl, rfl, rfl, rfl, [], .nil, ?_⟩
    rw [List.flatten_nil, List.append_nil, ← calls.made_eq rfl]
    exact calls.world_eq

theorem Folded.next {x : Handled C E W} (folded : Folded m handler world arrived log x.before)
    (hhead : x.before.queue.head? = some x.command) {made : List (String × C)}
    (follows : x.Follows m handler made) (hhandler : x.after.handler = x.before.handler)
    (running : x.after.status = .running) :
    Folded m handler world arrived (log ++ [x]) x.after := by
  have htriggers : (log ++ [x]).filterMap (·.trigger?) =
      log.filterMap (·.trigger?) ++ x.trigger?.toList := by
    rw [List.filterMap_append]
    cases h : x.trigger? <;> simp [h]
  obtain ⟨batches, hbatches, hworld⟩ := folded.calls
  refine {
    handled := hhandler.trans folded.handled
    running
    queue := ?_
    commits := ?_
    current := ?_
    calls := ⟨batches ++ [made], List.rel_append hbatches (.cons follows .nil), ?_⟩ }
  · obtain ⟨rest, hqueue⟩ := List.head?_eq_some_iff.mp hhead
    rw [folded.queue, follows.queue, hqueue, List.map_append, List.append_assoc]
    rfl
  · rw [follows.commits, folded.commits, htriggers, List.length_append]
  · rw [htriggers, Chart.fold_append folded.current, follows.current]
  · rw [follows.world_eq, hworld, ← Handler.after_append, List.flatten_append,
      List.flatten_singleton, List.append_assoc]

theorem Session.folded (tree : m.IsTree) (returns : handler.Returns)
    (session : Session m handler world arrived log s) :
    Folded m handler world arrived log s := by
  induction session with
  | start h => exact folded_start returns h
  | submit command _ ih =>
    exact { ih with queue := by rw [ih.queue, Service.submit, List.append_assoc] }
  | ring clock _ ih =>
    exact { ih with queue := by rw [ih.queue, Service.ringAt, List.append_assoc] }
  | wait clock _ ih => exact { ih with }
  | @next _ _ s s' command answer session hhead hnext ih =>
    obtain ⟨ds, run⟩ := session.run
    have held := held_run tree run
    obtain ⟨made, follows, hhandler, running⟩ :=
      follows_next tree held.chart held.settled ih.running
        (fun _ _ => (ih.handled ▸ returns).calm _ _) hhead hnext
    exact ih.next hhead (ih.handled ▸ follows) hhandler running

theorem concat_eq_append_cons {α : Type} {l earlier later : List α} {last x : α}
    (h : l ++ [last] = earlier ++ x :: later) :
    (later = [] ∧ l = earlier ∧ last = x) ∨
      ∃ between, later = between ++ [last] ∧ l = earlier ++ x :: between := by
  rcases later.eq_nil_or_concat with rfl | ⟨between, y, rfl⟩
  · obtain ⟨rfl, hx⟩ := List.append_inj' h rfl
    exact .inl ⟨rfl, rfl, List.singleton_inj.mp hx⟩
  · rw [List.concat_eq_append, ← List.cons_append, ← List.append_assoc] at h
    obtain ⟨rfl, hy⟩ := List.append_inj' h rfl
    obtain rfl := List.singleton_inj.mp hy
    exact .inr ⟨between, List.concat_eq_append, rfl⟩

theorem Session.split (session : Session m handler world arrived log s)
    {earlier later : List (Handled C E W)} {x : Handled C E W} (hlog : log = earlier ++ x :: later) :
    ∃ arrived, Session m handler world arrived earlier x.before ∧
      Session m handler world arrived (earlier ++ [x]) x.after := by
  induction session generalizing later with
  | start _ => simp at hlog
  | submit _ _ ih => exact ih hlog
  | ring _ _ ih => exact ih hlog
  | wait _ _ ih => exact ih hlog
  | next session hhead hnext ih =>
    rcases concat_eq_append_cons hlog with ⟨rfl, rfl, rfl⟩ | ⟨between, -, hbetween⟩
    · exact ⟨_, session, session.next hhead hnext⟩
    · exact ih hbetween

theorem step_requeue (returns : s.handler.Returns) (trigger : Trigger E)
    (queue : List (Command E)) :
    { s with queue }.step trigger = ({ (s.step trigger).1 with queue }, (s.step trigger).2) := by
  unfold step
  dsimp only
  cases s.chart.transition s.current trigger with
  | error e => rfl
  | ok next =>
    obtain ⟨made, error, -, houtcome⟩ := Handler.perform_calls (returns.calm next.calls s.world)
    dsimp only
    rw [houtcome]
    cases error <;> rfl

theorem handle_requeue (returns : s.handler.Returns) (running : s.status = .running)
    (command : Command E) (queue : List (Command E)) :
    { s with queue }.handle command =
      ({ (s.handle command).1 with queue }, (s.handle command).2) := by
  cases command with
  | send event =>
    rw [handle_send running, handle_send (s := { s with queue }) running, step_requeue returns]
  | timeout alarm =>
    cases hclaim : s.timers.claim alarm with
    | none => rw [handle_stale running hclaim, handle_stale (s := { s with queue }) running hclaim]
    | some timers =>
      have h := step_requeue (s := { s with timers }) returns (.after alarm.state) queue
      rw [handle_claimed running hclaim, handle_claimed (s := { s with queue }) running hclaim, h]
  | history => rw [handle_history running, handle_history (s := { s with queue }) running]

/-- What is kept when a service handles the command at the head of its queue is kept when it handles
all that is in the queue. -/
theorem handleAll_keeps {P : List (Handled C E W) → Service C E W → Prop}
    (next : ∀ {log s s' command answer}, P log s → s.queue.head? = some command →
      s.next? = some (s', answer) → P (log ++ [⟨s, command, answer, s'⟩]) s')
    (sound : ∀ {log s}, P log s → s.handler.Returns ∧ s.status = .running)
    (commands : List (Command E)) (h : P log { s with queue := commands }) :
    ∃ later, P (log ++ later) ({ s with queue := [] }.handleAll commands).1 ∧
      ({ s with queue := [] }.handleAll commands).2 = later.map (·.answer) := by
  induction commands generalizing log s with
  | nil => exact ⟨[], by rw [List.append_nil]; exact h, rfl⟩
  | cons command rest ih =>
    obtain ⟨returns, running⟩ := sound h
    have requeue := handle_requeue (s := s) returns running command
    let x : Handled C E W := ⟨{ s with queue := command :: rest }, command,
      (s.handle command).2, { (s.handle command).1 with queue := rest }⟩
    obtain ⟨later, hlater, hanswers⟩ := ih (next h rfl (congrArg some (requeue rest)))
    rw [Service.handleAll, requeue []]
    refine ⟨x :: later, ?_, ?_⟩
    · rw [List.append_cons]
      exact hlater
    · rw [List.map_cons, ← hanswers]

theorem Session.drain (tree : m.IsTree) (returns : handler.Returns)
    (session : Session m handler world arrived log s) :
    ∃ later, Session m handler world arrived (log ++ later) s.drain.1 ∧
      s.drain.2 = later.map (·.answer) := by
  refine handleAll_keeps (P := Session m handler world arrived) .next (fun session => ?_) s.queue
    session
  have folded := session.folded tree returns
  exact ⟨folded.handled ▸ returns, folded.running⟩

theorem Session.waited (reading : Nat) (session : Session m handler world arrived log s) :
    ∃ since later, Session m handler world (arrived ++ since) (log ++ later)
        { s with clock := reading } ∧ [] = later.map (·.answer) := by
  refine ⟨[], [], ?_, rfl⟩
  rw [List.append_nil, List.append_nil]
  exact session.wait reading

theorem Session.advanceTo (tree : m.IsTree) (returns : handler.Returns) (rounds reading : Nat)
    (session : Session m handler world arrived log s) :
    ∃ since later, Session m handler world (arrived ++ since) (log ++ later)
        (s.advanceTo rounds reading).1 ∧
      (s.advanceTo rounds reading).2 = later.map (·.answer) := by
  induction rounds generalizing arrived log s with
  | zero => exact session.waited reading
  | succ rounds ih =>
    unfold Service.advanceTo
    cases s.timers.nextDue with
    | none => exact session.waited reading
    | some due =>
      dsimp only
      split
      · obtain ⟨first, hfirst, hanswers⟩ := (session.ring (max s.clock due)).drain tree returns
        obtain ⟨since, later, hlater, hanswers'⟩ := ih hfirst
        refine ⟨(s.timers.ring (max s.clock due)).1.map .timeout ++ since, first ++ later, ?_, ?_⟩
        · rw [← List.append_assoc, ← List.append_assoc]
          exact hlater
        · rw [hanswers, hanswers', List.map_append]
      · exact session.waited reading

/-- A service whose handler never crashes handles what it finds in its queue in order. Its snapshot
is the fold of its chart over the triggers of what it handled, each committed once. A command
without a trigger changes nothing. -/
theorem session_folds {spec : ChartSpec C E} (built : spec.build = .ok m)
    (returns : handler.Returns) (session : Session m handler world arrived log s) :
    s.status = .running ∧ arrived = log.map (·.command) ++ s.queue ∧
      s.commits = (log.filterMap (·.trigger?)).length ∧
      m.fold (log.filterMap (·.trigger?)) = .ok s.current ∧
      (∀ earlier x later, log = earlier ++ x :: later →
        m.fold (earlier.filterMap (·.trigger?)) = .ok x.before.current ∧
        m.fold ((earlier ++ [x]).filterMap (·.trigger?)) = .ok x.after.current) ∧
      ∃ batches, List.Forall₂ (Handled.Follows m handler) log batches ∧
        s.world = handler.after world (m.initial.calls ++ batches.flatten) := by
  have tree := ChartSpec.isTree_of_build built
  have folded := session.folded tree returns
  refine ⟨folded.running, folded.queue, folded.commits, folded.current, ?_, folded.calls⟩
  intro earlier x later hlog
  obtain ⟨arrived, hbefore, hafter⟩ := session.split hlog
  exact ⟨(hbefore.folded tree returns).current, (hafter.folded tree returns).current⟩

def idleChart : Chart (EditorContext Unit) (EditorEvent Unit) :=
  Editor.machine (fun _ _ => .clean) (some { Duration.zero with secs := 1 })

def reticent : Handler (List String) (EditorContext Unit) where
  handle name _ called :=
    (if name = "notifyUneditable" then .failed (.failed name "hush") else .done, called ++ [name])

theorem reticent_returns : reticent.Returns := by
  intro name context called
  dsimp only [reticent]
  split <;> simp

def openEditor : Service (EditorContext Unit) (EditorEvent Unit) (List String) where
  chart := idleChart
  handler := reticent
  options := {}
  clockwork := .exact
  world := ["notifyEditable", "notifyResetEditor", "notifyActive"]
  clock := 0
  current := idleChart.initial
  timers := (({} : Timers).apply (Clockwork.exact.wake 0) idleChart.initial.fired).1
  journal := .bounded 1024
  queue := []
  commits := 0
  status := .running

theorem start_openEditor :
    (Service.start idleChart reticent {} .exact []).result = .ok openEditor := rfl

/-- The alarm comes first, and once more when it is stale. -/
def busyEditor : Service (EditorContext Unit) (EditorEvent Unit) (List String) :=
  (((openEditor.ringAt 1000).submit (.send .foreignLockAdded)).submit .history).submit
    (.timeout ⟨⟨"editable.pristine.active"⟩, 1⟩)

theorem busyEditor_folds : ∃ arrived log, Session idleChart reticent [] arrived log
      busyEditor.drain.1 ∧ arrived = log.map (·.command) ∧
    log.map (·.answer.reply.isSome) = [false, true, true, false] ∧
    (log.filterMap (·.trigger?)).length = 2 ∧
    idleChart.fold (log.filterMap (·.trigger?)) = .ok busyEditor.drain.1.current ∧
    busyEditor.drain.1.current.configuration.leaves =
      [⟨"uneditable.access.granted"⟩, ⟨"uneditable.lock.locked"⟩] ∧
    busyEditor.drain.1.world = ["notifyEditable", "notifyResetEditor", "notifyActive", "notifyIdle",
      "notifyUneditable"] := by
  have built := Editor.build_spec (T := Unit) (fun _ _ => .clean)
    (some { Duration.zero with secs := 1 })
  have session : Session idleChart reticent [] _ [] busyEditor :=
    (((Session.start start_openEditor).ring 1000).submit _).submit _ |>.submit _
  obtain ⟨log, session, hanswers⟩ :=
    session.drain (ChartSpec.isTree_of_build built) reticent_returns
  obtain ⟨-, harrived, hcommits, hfold, -⟩ := session_folds built reticent_returns session
  have hqueue : busyEditor.drain.1.queue = [] := List.isEmpty_iff.mp (by decide +kernel)
  have hcount : busyEditor.drain.1.commits = 2 := by decide +kernel
  have hreplies : busyEditor.drain.2.map (·.reply.isSome) = [false, true, true, false] := by
    decide +kernel
  refine ⟨_, _, session, ?_, ?_, ?_, hfold, by decide +kernel, by decide +kernel⟩
  · rw [harrived, hqueue, List.append_nil]
  · rw [← hreplies, hanswers, List.map_map]
    rfl
  · rw [← hcommits, hcount]

end Service
end Statechart
