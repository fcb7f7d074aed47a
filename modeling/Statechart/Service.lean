import Statechart.Interpreter
import Statechart.Journal
import Statechart.Timers

/-! Services: a running chart that owns its state and its timers. The events of clients and the alarms
of timers wait in one queue, and each command is handled to its end before the next. -/
namespace Statechart

inductive Command (E : Type) where
  | send (event : E)
  | timeout (alarm : Alarm)
  | history

inductive Reply (C : Type) where
  | state (r : Except RunError (Snapshot C))
  | history (r : Except RunError Journal)

/-- What handling a command gives back. A timeout has nobody to reply to. -/
structure Answer (C : Type) where
  reply : Option (Reply C)
  diagnostics : List Diagnostic

/-- A service whose handler crashed is lost, but it has not been told to stop. -/
inductive Status where
  | running
  | lost
  | stopped
deriving DecidableEq, Repr

/-- What tells a service the time: the date of a reading of its clock, and for how many nanoseconds it
sleeps when it is to sleep for a delay. -/
structure Clockwork where
  calendar : Nat → Timestamp
  sleep : Duration → Nat

def Service.nanosPerMilli : Nat := 1000000

/-- When a sleep for a delay ends that begins at a reading of the clock, in nanoseconds. -/
def Clockwork.wake (c : Clockwork) (clock : Nat) (delay : Duration) : Nat :=
  clock * Service.nanosPerMilli + c.sleep delay

/-- The clock counts milliseconds from the start. -/
structure Service (C E W : Type) where
  chart : Chart C E
  handler : Handler W C
  options : Options
  clockwork : Clockwork
  world : W
  clock : Nat
  current : Snapshot C
  timers : Timers
  journal : Journal
  queue : List (Command E)
  commits : Nat
  status : Status

namespace Service

variable {C E W : Type} [Event E]

/-- Enters the initial state. The timers run from then on, even while the entry actions do; the
service comes to be once these have ended well. -/
def start (chart : Chart C E) (handler : Handler W C) (options : Options)
    (clockwork : Clockwork) (world : W) : Ran W (Service C E W) :=
  let first := chart.initial
  let (timers, reported) := ({} : Timers).apply (clockwork.wake 0) first.fired
  let diagnostics := Diagnostic.ofStep chart.name options.debug first ++ reported
  let p := handler.perform first world
  match p.outcome with
  | .done =>
    { result := .ok {
        chart, handler, options, clockwork, timers
        world := p.world
        clock := 0
        current := first
        journal := .bounded options.historyLimit
        queue := []
        commits := 0
        status := .running }
      world := p.world
      diagnostics }
  | .failed e =>
    { result := .error (.error (.action e))
      world := p.world
      diagnostics := diagnostics ++ [.entryFailed chart.name e] }
  | .crashed => { result := .error .crashed, world := p.world, diagnostics }

/-- The service once a step has led to `next`, before its actions are performed. -/
def commit (s : Service C E W) (next : Snapshot C) : Traced (Service C E W) :=
  let (timers, reported) :=
    if next.changed then s.timers.apply (s.clockwork.wake s.clock) next.fired else (s.timers, [])
  let journal :=
    if next.configuration ≠ s.current.configuration then
      s.journal.push
        ⟨s.current.configuration, next.configuration, next.trigger,
          s.clockwork.calendar s.clock⟩
    else s.journal
  ({ s with timers, journal, current := next, commits := s.commits + 1 },
    Diagnostic.ofStep s.chart.name s.options.debug next ++ reported)

/-- Takes a step, commits it, and performs its actions. A failed action leaves the step committed; a
crash loses the service. -/
def step (s : Service C E W) (trigger : Trigger E) :
    Service C E W × Except RunError (Snapshot C) × List Diagnostic :=
  match s.chart.transition s.current trigger with
  | .error e => (s, .error (.chart e), [])
  | .ok next =>
    let (committed, diagnostics) := s.commit next
    let p := s.handler.perform next s.world
    let acted := { committed with world := p.world }
    match p.outcome with
    | .done => (acted, .ok next, diagnostics)
    | .failed e =>
      (acted, .error (.action e), diagnostics ++ [.actionFailed s.chart.name e])
    | .crashed =>
      ({ acted with status := .lost, timers := acted.timers.cancelAll, queue := [] },
        .error .stopped, diagnostics)

/-- A service that is not running refuses every command. -/
def refuse : Command E → Answer C
  | .send _ => ⟨some (.state (.error .stopped)), []⟩
  | .history => ⟨some (.history (.error .stopped)), []⟩
  | .timeout _ => ⟨none, []⟩

def handle (s : Service C E W) (command : Command E) : Service C E W × Answer C :=
  match s.status, command with
  | .running, .send event =>
    let (s, result, diagnostics) := s.step (.event event)
    (s, ⟨some (.state result), diagnostics⟩)
  | .running, .timeout alarm =>
    match s.timers.claim alarm with
    | none => (s, ⟨none, [.timerStale alarm.state alarm.generation]⟩)
    | some timers =>
      let (s, _, diagnostics) := { s with timers }.step (.after alarm.state)
      (s, ⟨none, diagnostics⟩)
  | .running, .history => (s, ⟨some (.history (.ok s.journal)), []⟩)
  | _, command => (s, refuse command)

def submit (s : Service C E W) (command : Command E) : Service C E W :=
  { s with queue := s.queue ++ [command] }

def next? (s : Service C E W) : Option (Service C E W × Answer C) :=
  match s.queue with
  | [] => none
  | command :: rest => some ({ s with queue := rest }.handle command)

def handleAll (s : Service C E W) : List (Command E) → Service C E W × List (Answer C)
  | [] => (s, [])
  | command :: rest =>
    let (s, answer) := s.handle command
    let (s, answers) := s.handleAll rest
    (s, answer :: answers)

def drain (s : Service C E W) : Service C E W × List (Answer C) :=
  { s with queue := [] }.handleAll s.queue

/-- Moves the clock to a reading and queues the alarms that have gone off by then. -/
def ringAt (s : Service C E W) (clock : Nat) : Service C E W :=
  let (alarms, timers) := s.timers.ring clock
  { s with clock, timers, queue := s.queue ++ alarms.map .timeout }

/-- Moves the clock to a reading. The alarms due on the way go off at their own times, those of one
time together, and are handled before the clock moves on. Delays of zero can go off for ever at one
time, so at most `rounds` times are visited. -/
def advanceTo (rounds : Nat) (reading : Nat) (s : Service C E W) :
    Service C E W × List (Answer C) :=
  match rounds, s.timers.nextDue with
  | rounds + 1, some due =>
    if due ≤ reading then
      let (s, answers) := (s.ringAt (max s.clock due)).drain
      let (s, later) := advanceTo rounds reading s
      (s, answers ++ later)
    else ({ s with clock := reading }, [])
  | _, _ => ({ s with clock := reading }, [])

def isRunning (s : Service C E W) : Bool := s.status ≠ .stopped

/-- Stops the service and waits for its end; one that was lost is reported. -/
def stop (s : Service C E W) : Traced (Service C E W) :=
  ({ s with status := .stopped, timers := s.timers.cancelAll, queue := [] },
    if s.status = .lost then [.serviceLost] else [.serviceStopped s.chart.name])

/-- Lets go of the service, which stops it without a look at how it ends. -/
def release (s : Service C E W) : Traced (Service C E W) :=
  ({ s with status := .stopped, timers := s.timers.cancelAll, queue := [] },
    if s.status = .lost then [] else [.serviceStopped s.chart.name])

end Service
end Statechart
