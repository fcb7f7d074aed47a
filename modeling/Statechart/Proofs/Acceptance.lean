import Statechart.Proofs.Timely

/-! Handlers that know all the actions of a chart. Such a handler may crash, but it turns no call
down, so that neither a run of the chart nor a service of it reports the failure of an action. -/
namespace Statechart

variable {C E W : Type}

namespace Diagnostic

/-- Tells of an action that failed. -/
def isActionError : Diagnostic → Bool
  | .entryFailed .. | .actionFailed .. => true
  | _ => false

/-- None of the diagnostics tells of an action that failed. -/
def Quiet (ds : List Diagnostic) : Prop := ∀ d ∈ ds, d.isActionError = false

theorem quiet_nil : Quiet [] := fun _ h => absurd h List.not_mem_nil

theorem Quiet.append {ds ds' : List Diagnostic} (h : Quiet ds) (h' : Quiet ds') :
    Quiet (ds ++ ds') := fun d hd => (List.mem_append.mp hd).elim (h d) (h' d)

theorem quiet_ofStep (chart : String) (debug : Bool) (s : Snapshot C) :
    Quiet (ofStep chart debug s) := by
  refine Quiet.append (fun d hd => ?_) fun d hd => ?_
  · obtain ⟨fault, -, rfl⟩ := List.mem_map.mp hd
    rfl
  · split at hd
    · obtain rfl := List.mem_singleton.mp hd
      rfl
    · cases hd

end Diagnostic

/-- What a run reports is no failure of an action. -/
structure Ran.Accepted {α : Type} (r : Ran W α) : Prop where
  result : ∀ e, r.result ≠ .error (.error (.action e))
  diagnostics : Diagnostic.Quiet r.diagnostics

/-- What a service answers is no failure of an action. -/
structure Answer.Accepted (a : Answer C) : Prop where
  reply : ∀ e, a.reply ≠ some (.state (.error (.action e)))
  diagnostics : Diagnostic.Quiet a.diagnostics

namespace Timers

theorem quiet_cancel (t : Timers) (state : Path) : Diagnostic.Quiet (t.cancel state).2 := by
  unfold cancel
  split
  · exact Diagnostic.quiet_nil
  · intro d hd
    obtain rfl := List.mem_singleton.mp hd
    rfl

theorem quiet_arm (t : Timers) (wake : Duration → Nat) (state : Path) (delay : Duration) :
    Diagnostic.Quiet (t.arm wake state delay).2 := by
  refine (t.quiet_cancel state).append fun d hd => ?_
  obtain rfl := List.mem_singleton.mp hd
  rfl

theorem quiet_apply (t : Timers) (wake : Duration → Nat) (fired : List Fired) :
    Diagnostic.Quiet (t.apply wake fired).2 := by
  have cancels : ∀ (t : Traced Timers) (f : Fired), Diagnostic.Quiet t.2 →
      Diagnostic.Quiet (cancelStep t f).2 := by
    intro t f h
    cases f with
    | cancel state => exact h.append (t.1.quiet_cancel state)
    | _ => exact h
  have arms : ∀ (t : Traced Timers) (f : Fired), Diagnostic.Quiet t.2 →
      Diagnostic.Quiet (armStep wake t f).2 := by
    intro t f h
    cases f with
    | schedule state delay => exact h.append (t.1.quiet_arm wake state delay)
    | _ => exact h
  refine List.foldlRecOn fired (armStep wake) ?_ fun t h f _ => arms t f h
  exact List.foldlRecOn fired cancelStep Diagnostic.quiet_nil fun t h f _ => cancels t f h

end Timers

namespace Handler

/-- No call that a snapshot asks for is turned down. -/
def Knows (h : Handler W C) (s : Snapshot C) : Prop :=
  ∀ call ∈ s.calls, ∀ world e, (h.handle call.1 call.2 world).1 ≠ .failed e

/-- Nothing that the chart ever asks for is turned down. -/
structure Fits [Event E] (h : Handler W C) (m : Chart C E) : Prop where
  initial : h.Knows m.initial
  step : ∀ {s next : Snapshot C} {trigger : Trigger E}, m.transition s trigger = .ok next →
    h.Knows next

variable {h : Handler W C}

theorem performNames_knows (context : C) {names : List String}
    (knows : ∀ name ∈ names, ∀ world e, (h.handle name context world).1 ≠ .failed e) (world : W)
    (e : ActionError) : (h.performNames context names world).outcome ≠ .failed e := by
  induction names generalizing world with
  | nil => exact Outcome.noConfusion
  | cons name rest ih =>
    have hname := knows name List.mem_cons_self world e
    have hrest := ih fun name hmem => knows name (List.mem_cons_of_mem _ hmem)
    rw [performNames]
    cases hcall : h.handle name context world with
    | mk outcome next =>
      rw [hcall] at hname
      cases outcome with
      | done => exact hrest next
      | failed e' => exact hname
      | crashed => exact Outcome.noConfusion

theorem perform_knows {s : Snapshot C} (knows : h.Knows s) (world : W) (e : ActionError) :
    (h.perform s world).outcome ≠ .failed e :=
  performNames_knows s.context
    (fun name hname => knows (name, s.context) (List.mem_map.mpr ⟨name, hname, rfl⟩)) world e

end Handler

theorem Performed.result_ne {α : Type} {p : Performed W} (h : ∀ e, p.outcome ≠ .failed e)
    (value : α) (e : ActionError) : p.result value ≠ .error (.error (.action e)) := by
  unfold result
  cases hp : p.outcome with
  | done => simp
  | failed e' => exact absurd hp (h e')
  | crashed => simp

namespace Interpreter

variable {i : Interpreter C E W} {h : Handler W C}

theorem commit_accepted {next : Except ChartError (Snapshot C)}
    (knows : ∀ s, next = .ok s → h.Knows s) (world : W) : (i.commit next h world).Accepted := by
  cases next with
  | error e => exact ⟨fun _ => by simp [commit], Diagnostic.quiet_nil⟩
  | ok s =>
    exact ⟨Performed.result_ne (Handler.perform_knows (knows s rfl) _) s,
      Diagnostic.quiet_ofStep _ _ _⟩

theorem commit_serves {s : Snapshot C} (serves : h.Serves s) (world : W) :
    (i.commit (.ok s) h world).result = .ok s := by
  simp only [commit, Performed.result, (Handler.perform_serves serves _).1]

variable [Event E] (fits : h.Fits i.chart)
include fits

theorem start_accepted (world : W) : (i.start h world).Accepted :=
  commit_accepted (fun _ hs => Except.ok.inj hs ▸ fits.initial) world

theorem send_accepted (s : Snapshot C) (trigger : Trigger E) (world : W) :
    (i.send s trigger h world).Accepted :=
  commit_accepted (fun _ hs => fits.step hs) world

omit fits in
theorem send_serves {s next : Snapshot C} {trigger : Trigger E}
    (hnext : i.chart.transition s trigger = .ok next) (serves : h.Serves next) (world : W) :
    (i.send s trigger h world).result = .ok next := by
  rw [send, hnext]
  exact commit_serves serves world

end Interpreter

namespace Service

variable [Event E] {m : Chart C E} {handler : Handler W C} {s : Service C E W}

theorem start_accepted (fits : handler.Fits m) (options : Options) (clockwork : Clockwork)
    (world : W) : (Service.start m handler options clockwork world).Accepted := by
  have hquiet : Diagnostic.Quiet (Diagnostic.ofStep m.name options.debug m.initial ++
      (({} : Timers).apply (clockwork.wake 0) m.initial.fired).2) :=
    (Diagnostic.quiet_ofStep _ _ _).append (Timers.quiet_apply _ _ _)
  unfold Service.start
  dsimp only
  split
  · exact ⟨fun _ => by simp, hquiet⟩
  · rename_i e he
    exact absurd he (Handler.perform_knows fits.initial world e)
  · exact ⟨fun _ => by simp, hquiet⟩

omit [Event E] in
theorem quiet_commit (s : Service C E W) (next : Snapshot C) :
    Diagnostic.Quiet (s.commit next).2 := by
  unfold commit
  dsimp only
  refine (Diagnostic.quiet_ofStep _ _ _).append ?_
  split
  · exact Timers.quiet_apply _ _ _
  · exact Diagnostic.quiet_nil

theorem step_accepted (fits : s.handler.Fits s.chart) (trigger : Trigger E) :
    (∀ e, (s.step trigger).2.1 ≠ .error (.action e)) ∧ Diagnostic.Quiet (s.step trigger).2.2 := by
  unfold step
  split
  · exact ⟨fun _ => by simp, Diagnostic.quiet_nil⟩
  · rename_i next hnext
    have hquiet := s.quiet_commit next
    dsimp only
    split
    · exact ⟨fun _ => by simp, hquiet⟩
    · rename_i e he
      exact absurd he (Handler.perform_knows (fits.step hnext) s.world e)
    · exact ⟨fun _ => by simp, hquiet⟩

theorem handle_accepted (fits : s.handler.Fits s.chart) (command : Command E) :
    (s.handle command).2.Accepted := by
  have hrefuse : (refuse command : Answer C).Accepted := by
    cases command <;> exact ⟨fun _ => by simp [refuse], Diagnostic.quiet_nil⟩
  by_cases running : s.status = .running
  · cases command with
    | send event =>
      obtain ⟨hresult, hquiet⟩ := step_accepted fits (.event event)
      rw [handle_send running]
      exact ⟨fun e => by simpa using hresult e, hquiet⟩
    | timeout alarm =>
      cases hclaim : s.timers.claim alarm with
      | none =>
        rw [handle_stale running hclaim]
        refine ⟨fun _ => by simp, fun d hd => ?_⟩
        obtain rfl := List.mem_singleton.mp hd
        rfl
      | some timers =>
        obtain ⟨-, hquiet⟩ := step_accepted (s := { s with timers }) fits (.after alarm.state)
        rw [handle_claimed running hclaim]
        exact ⟨fun _ => by simp, hquiet⟩
    | history =>
      rw [handle_history running]
      exact ⟨fun _ => by simp, Diagnostic.quiet_nil⟩
  · rw [handle_refused running]
    exact hrefuse

/-- Whatever comes up in a session of a handler that fits its chart, no command is answered with the
failure of an action. -/
theorem Session.accepted (fits : handler.Fits m) {world : W} {arrived : List (Command E)}
    {log : List (Handled C E W)} (session : Session m handler world arrived log s) :
    ∀ x ∈ log, x.answer.Accepted := by
  induction session with
  | start h => exact fun _ hx => absurd hx List.not_mem_nil
  | submit _ _ ih => exact ih
  | ring _ _ ih => exact ih
  | wait _ _ ih => exact ih
  | @next _ log s s' command answer session hhead hnext ih =>
    obtain ⟨rfl, rfl⟩ := session.kept
    have haccepted := handle_accepted (s := { s with queue := s.queue.tail }) fits command
    rw [next?_eq hhead hnext] at haccepted
    intro x hx
    rcases List.mem_append.mp hx with hx | hx
    · exact ih x hx
    · obtain rfl := List.mem_singleton.mp hx
      exact haccepted

end Service
end Statechart
