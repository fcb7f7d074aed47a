import Statechart.Proofs.ServiceSession

/-! Sessions on a clock that never goes back: clients send events and ask for the history, and alarms
come from the timers alone. The moments of such a session tell what the service has come to, and
when. -/
namespace Statechart

variable {C E W : Type}

/-- The clockwork sleeps just as long as the delay. -/
def Clockwork.Keeps (c : Clockwork) (delay : Duration) : Prop :=
  c.sleep delay = delay.toNanos

namespace Handler

def Serves (h : Handler W C) (s : Snapshot C) : Prop :=
  ∀ call ∈ s.calls, ∀ world, (h.handle call.1 call.2 world).1 = .done

variable {h : Handler W C}

theorem performNames_serves (context : C) {names : List String}
    (serves : ∀ name ∈ names, ∀ world, (h.handle name context world).1 = .done) (world : W) :
    (h.performNames context names world).outcome = .done ∧
      (h.performNames context names world).world =
        h.after world (names.map (·, context)) := by
  induction names generalizing world with
  | nil => exact ⟨rfl, rfl⟩
  | cons name rest ih =>
    have hname := serves name List.mem_cons_self world
    obtain ⟨houtcome, hworld⟩ := ih (fun name hmem => serves name (List.mem_cons_of_mem _ hmem))
      (h.handle name context world).2
    cases hcall : h.handle name context world with
    | mk outcome next =>
      rw [hcall] at hname houtcome hworld
      obtain rfl : outcome = .done := hname
      rw [performNames, hcall]
      refine ⟨houtcome, hworld.trans ?_⟩
      rw [List.map_cons, after, after, List.foldl_cons, hcall]

theorem perform_serves {s : Snapshot C} (serves : h.Serves s) (world : W) :
    (h.perform s world).outcome = .done ∧
      (h.perform s world).world = h.after world s.calls :=
  performNames_serves s.context
    (fun name hname => serves (name, s.context) (List.mem_map.mpr ⟨name, hname, rfl⟩)) world

end Handler

namespace Service

variable [Event E]

/-- A command leads to a trigger, with the timers as they are once an alarm is claimed. -/
inductive Takes (s : Service C E W) : Command E → Trigger E → Timers → Prop where
  | event (event : E) : Takes s (.send event) (.event event) s.timers
  | alarm {alarm : Alarm} {timers : Timers} : s.timers.claim alarm = some timers →
      Takes s (.timeout alarm) (.after alarm.state) timers

/-- The sessions of a service that starts in a world, on a clock that never goes back: the commands
that have been handled, and the service as it is now. -/
inductive Timely (m : Chart C E) (handler : Handler W C) (clockwork : Clockwork) (world : W) :
    List (Handled C E W) → Service C E W → Prop where
  | start {options : Options} {s : Service C E W} :
      (Service.start m handler options clockwork world).result = .ok s →
      Timely m handler clockwork world [] s
  | send {log : List (Handled C E W)} {s : Service C E W} (event : E) :
      Timely m handler clockwork world log s →
      Timely m handler clockwork world log (s.submit (.send event))
  | history {log : List (Handled C E W)} {s : Service C E W} :
      Timely m handler clockwork world log s →
      Timely m handler clockwork world log (s.submit .history)
  | ring {log : List (Handled C E W)} {s : Service C E W} {clock : Nat} : s.clock ≤ clock →
      Timely m handler clockwork world log s →
      Timely m handler clockwork world log (s.ringAt clock)
  | wait {log : List (Handled C E W)} {s : Service C E W} {clock : Nat} : s.clock ≤ clock →
      Timely m handler clockwork world log s →
      Timely m handler clockwork world log { s with clock }
  | next {log : List (Handled C E W)} {s s' : Service C E W} {command : Command E}
      {answer : Answer C} : Timely m handler clockwork world log s →
      s.queue.head? = some command → s.next? = some (s', answer) →
      Timely m handler clockwork world (log ++ [⟨s, command, answer, s'⟩]) s'

/-- A snapshot that the service has come to, and when. -/
structure Moment (C : Type) where
  clock : Nat
  snapshot : Snapshot C

def Handled.moment? (x : Handled C E W) : Option (Moment C) :=
  x.trigger?.map fun _ => ⟨x.before.clock, x.after.current⟩

def moments (m : Chart C E) (log : List (Handled C E W)) : List (Moment C) :=
  ⟨0, m.initial⟩ :: log.filterMap (·.moment?)

theorem moments_append (m : Chart C E) (log : List (Handled C E W)) (x : Handled C E W) :
    moments m (log ++ [x]) = moments m log ++ x.moment?.toList := by
  rw [moments, List.filterMap_append]
  cases h : x.moment? <;> simp [moments, h]

variable {m : Chart C E} {handler : Handler W C} {clockwork : Clockwork} {world : W}
  {log : List (Handled C E W)} {s : Service C E W}

omit [Event E] in
theorem Takes.triggerOf? {command : Command E} {trigger : Trigger E} {timers : Timers}
    (takes : s.Takes command trigger timers) : s.triggerOf? command = some trigger := by
  cases takes with
  | event event => rfl
  | alarm hclaim => rw [Service.triggerOf?, hclaim, Option.map_some]

theorem start_serves (options : Options) (clockwork : Clockwork) (world : W)
    (serves : handler.Serves m.initial) :
    (Service.start m handler options clockwork world).result =
      .ok (fresh m handler options clockwork (handler.after world m.initial.calls)) := by
  obtain ⟨houtcome, hworld⟩ := Handler.perform_serves serves world
  rw [← hworld]
  exact start_eq_ok_iff.mpr ⟨houtcome, rfl⟩

theorem handle_cases (running : s.status = .running) (command : Command E) :
    (s.triggerOf? command = none ∧ (s.handle command).1 = s) ∨
      ∃ trigger timers, s.Takes command trigger timers ∧
        (s.handle command).1 = ({ s with timers }.step trigger).1 := by
  cases command with
  | send event => exact .inr ⟨_, _, .event event, by rw [handle_send running]⟩
  | timeout alarm =>
    cases hclaim : s.timers.claim alarm with
    | none =>
      refine .inl ⟨by rw [triggerOf?, hclaim, Option.map_none], ?_⟩
      rw [handle_stale running hclaim]
    | some timers => exact .inr ⟨_, _, .alarm hclaim, by rw [handle_claimed running hclaim]⟩
  | history => exact .inl ⟨rfl, by rw [handle_history running]⟩

theorem step_serves {trigger : Trigger E} {next : Snapshot C}
    (h : s.chart.transition s.current trigger = .ok next) (serves : s.handler.Serves next) :
    (s.step trigger).1 =
      { (s.commit next).1 with world := s.handler.after s.world next.calls } := by
  obtain ⟨houtcome, hworld⟩ := Handler.perform_serves serves s.world
  unfold step
  rw [h]
  dsimp only
  rw [houtcome, hworld]

/-- The service after a command at the head of its queue that led to a step whose calls end well. -/
def took (s : Service C E W) (timers : Timers) (next : Snapshot C) : Service C E W :=
  { ({ s with timers, queue := s.queue.tail }.commit next).1 with
    world := s.handler.after s.world next.calls }

section

omit [Event E]

@[simp] theorem current_took (s : Service C E W) (timers : Timers) (next : Snapshot C) :
    (s.took timers next).current = next := rfl

theorem timers_took (s : Service C E W) (timers : Timers) (next : Snapshot C) :
    (s.took timers next).timers =
      if next.changed then (timers.apply (s.clockwork.wake s.clock) next.fired).1 else timers := by
  unfold took commit
  cases next.changed <;> rfl

end

/-- What a running service whose calls end well has become by handling a command. -/
theorem next?_cases (running : s.status = .running) {s' : Service C E W} {command : Command E}
    {answer : Answer C} (hhead : s.queue.head? = some command)
    (hnext : s.next? = some (s', answer))
    (steps : ∀ trigger, ∃ next, s.chart.transition s.current trigger = .ok next ∧
      s.handler.Serves next) :
    (s.triggerOf? command = none ∧ s' = { s with queue := s.queue.tail }) ∨
      ∃ trigger timers next, s.Takes command trigger timers ∧
        s.chart.transition s.current trigger = .ok next ∧ s' = s.took timers next := by
  obtain ⟨rest, hqueue⟩ := List.head?_eq_some_iff.mp hhead
  obtain ⟨rfl, -⟩ : ({ s with queue := rest }.handle command).1 = s' ∧
      ({ s with queue := rest }.handle command).2 = answer := by
    rw [next?, hqueue] at hnext
    exact Prod.mk.inj (Option.some.inj hnext)
  have htail : s.queue.tail = rest := by rw [hqueue, List.tail_cons]
  rcases handle_cases (s := { s with queue := rest }) running command with
    hquiet | ⟨trigger, timers, takes, hstep⟩
  · exact .inl (htail ▸ hquiet)
  · obtain ⟨next, htransition, serves⟩ := steps trigger
    refine .inr ⟨trigger, timers, next, ?_, htransition, ?_⟩
    · cases takes with
      | event event => exact .event event
      | alarm hclaim => exact .alarm hclaim
    · rw [hstep, took, htail]
      exact step_serves (s := { s with timers, queue := rest }) htransition serves

theorem Timely.session (timely : Timely m handler clockwork world log s) :
    ∃ arrived, Session m handler world arrived log s := by
  induction timely with
  | start h => exact ⟨_, .start h⟩
  | send event _ ih =>
    obtain ⟨arrived, session⟩ := ih
    exact ⟨_, session.submit _⟩
  | history _ ih =>
    obtain ⟨arrived, session⟩ := ih
    exact ⟨_, session.submit _⟩
  | @ring _ _ clock _ _ ih =>
    obtain ⟨arrived, session⟩ := ih
    exact ⟨_, session.ring clock⟩
  | @wait _ _ clock _ _ ih =>
    obtain ⟨arrived, session⟩ := ih
    exact ⟨_, session.wait clock⟩
  | next _ hhead hnext ih =>
    obtain ⟨arrived, session⟩ := ih
    exact ⟨_, session.next hhead hnext⟩

theorem Timely.split (timely : Timely m handler clockwork world log s)
    {earlier later : List (Handled C E W)} {x : Handled C E W}
    (hlog : log = earlier ++ x :: later) :
    Timely m handler clockwork world earlier x.before ∧ x.before.queue.head? = some x.command ∧
      x.before.next? = some (x.after, x.answer) := by
  induction timely generalizing later with
  | start _ => simp at hlog
  | send _ _ ih => exact ih hlog
  | history _ ih => exact ih hlog
  | ring _ _ ih => exact ih hlog
  | wait _ _ ih => exact ih hlog
  | next timely hhead hnext ih =>
    rcases concat_eq_append_cons hlog with ⟨-, rfl, rfl⟩ | ⟨between, -, hbetween⟩
    · exact ⟨timely, hhead, hnext⟩
    · exact ih hbetween

theorem clock_step (s : Service C E W) (trigger : Trigger E) :
    (s.step trigger).1.clock = s.clock := by
  unfold step
  split
  · rfl
  · dsimp only
    split <;> rfl

theorem clock_handle (s : Service C E W) (command : Command E) :
    (s.handle command).1.clock = s.clock := by
  by_cases running : s.status = .running
  · rcases handle_cases running command with ⟨-, hsame⟩ | ⟨trigger, timers, -, hstep⟩
    · rw [hsame]
    · rw [hstep, clock_step]
  · cases hstatus : s.status <;> cases command <;> simp_all [handle]

theorem clock_handleAll (s : Service C E W) (commands : List (Command E)) :
    (s.handleAll commands).1.clock = s.clock := by
  induction commands generalizing s with
  | nil => rfl
  | cons command rest ih => exact (ih _).trans (clock_handle s command)

theorem Timely.drain (tree : m.IsTree) (returns : handler.Returns)
    (timely : Timely m handler clockwork world log s) :
    ∃ later, Timely m handler clockwork world (log ++ later) s.drain.1 ∧
      s.drain.2 = later.map (·.answer) := by
  refine handleAll_keeps (P := Timely m handler clockwork world) .next (fun timely => ?_) s.queue timely
  obtain ⟨arrived, session⟩ := timely.session
  have folded := session.folded tree returns
  exact ⟨folded.handled ▸ returns, folded.running⟩

/-- All that a service does while its clock moves on is part of a timely session. -/
theorem Timely.advanceTo (tree : m.IsTree) (returns : handler.Returns) (rounds : Nat)
    {reading : Nat} (h : s.clock ≤ reading) (timely : Timely m handler clockwork world log s) :
    ∃ later, Timely m handler clockwork world (log ++ later) (s.advanceTo rounds reading).1 ∧
      (s.advanceTo rounds reading).2 = later.map (·.answer) := by
  have waited : ∃ later, Timely m handler clockwork world (log ++ later) { s with clock := reading } ∧
      [] = later.map (·.answer) :=
    ⟨[], by rw [List.append_nil]; exact timely.wait h, rfl⟩
  induction rounds generalizing log s with
  | zero => exact waited
  | succ rounds ih =>
    unfold Service.advanceTo
    cases s.timers.nextDue with
    | none => exact waited
    | some due =>
      dsimp only
      split
      · rename_i hdue
        obtain ⟨first, hfirst, hanswers⟩ :=
          (timely.ring (Nat.le_max_left s.clock due)).drain tree returns
        have hclock : (s.ringAt (max s.clock due)).drain.1.clock ≤ reading := by
          rw [Service.drain, clock_handleAll]
          exact Nat.max_le.mpr ⟨h, hdue⟩
        obtain ⟨later, hlater, hanswers'⟩ := ih hclock hfirst
          ⟨[], by rw [List.append_nil]; exact hfirst.wait hclock, rfl⟩
        refine ⟨first ++ later, ?_, ?_⟩
        · rw [← List.append_assoc]
          exact hlater
        · rw [hanswers, hanswers', List.map_append]
      · exact waited

end Service
end Statechart
