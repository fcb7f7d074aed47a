import Mathlib.Data.List.Chain
import Statechart.Proofs.JournalLimit
import Statechart.Proofs.ServiceSession

/-! The journal of a service. It holds the latest moves of the session, as many as its limit allows,
and they lead without a break to the configuration that the service is in. -/
namespace Statechart

namespace Journal

/-- The moves lead from one configuration to another: each starts where the one before it ended, and
none stays where it is. -/
inductive Leads : Configuration → List Move → Configuration → Prop where
  | stay (c : Configuration) : Leads c [] c
  | move {c d : Configuration} {mv : Move} {rest : List Move} : mv.source = c →
      mv.source ≠ mv.target → Leads mv.target rest d → Leads c (mv :: rest) d

namespace Leads

variable {c d : Configuration} {moves : List Move}

theorem concat (leads : Leads c moves d) {mv : Move} (hsource : mv.source = d)
    (hne : mv.source ≠ mv.target) : Leads c (moves ++ [mv]) mv.target := by
  induction leads with
  | stay c => exact .move hsource hne (.stay _)
  | move hc hmoved _ ih => exact .move hc hmoved (ih hsource)

theorem drop (leads : Leads c moves d) (k : Nat) : ∃ b, Leads b (moves.drop k) d := by
  induction leads generalizing k with
  | stay c =>
    rw [List.drop_nil]
    exact ⟨c, .stay c⟩
  | move hc hmoved leads ih =>
    cases k with
    | zero => exact ⟨_, .move hc hmoved leads⟩
    | succ k => exact ih k

theorem moved (leads : Leads c moves d) : ∀ mv ∈ moves, mv.source ≠ mv.target := by
  induction leads with
  | stay c => simp
  | move _ hmoved _ ih => exact List.forall_mem_cons.mpr ⟨hmoved, ih⟩

theorem first (leads : Leads c moves d) : ∀ mv ∈ moves.head?, mv.source = c := by
  cases leads with
  | stay => simp
  | move hc _ _ => simpa using hc

theorem linked (leads : Leads c moves d) : moves.IsChain fun a b => a.target = b.source := by
  induction leads with
  | stay c => exact List.isChain_nil
  | @move c d mv rest _ _ leads ih =>
    cases rest with
    | nil => exact List.isChain_singleton _
    | cons next rest =>
      have hnext : mv.target = next.source := (leads.first next rfl).symm
      exact List.isChain_cons_cons.mpr ⟨hnext, ih⟩

theorem path (leads : Leads c moves d) : (c :: moves.map (·.target)).IsChain (· ≠ ·) := by
  induction leads with
  | stay c => exact List.isChain_singleton c
  | move hc hmoved _ ih => exact List.isChain_cons_cons.mpr ⟨hc ▸ hmoved, ih⟩

theorem ends (leads : Leads c moves d) : (c :: moves.map (·.target)).getLast? = some d := by
  induction leads with
  | stay c => rfl
  | move _ _ _ ih =>
    rw [List.map_cons, List.getLast?_cons_cons]
    exact ih

theorem last (leads : Leads c moves d) : ∀ mv ∈ moves.getLast?, mv.target = d := by
  intro mv hmv
  have hends := leads.ends
  obtain ⟨rest, rfl⟩ := List.getLast?_eq_some_iff.mp hmv
  rw [List.map_append, List.map_singleton, ← List.cons_append, List.getLast?_concat] at hends
  exact Option.some.inj hends

theorem configurations_eq {j : Journal} (leads : Leads c j.moves d) (hne : j.moves ≠ []) :
    j.configurations = c :: j.moves.map (·.target) := by
  cases hmoves : j.moves with
  | nil => exact absurd hmoves hne
  | cons mv rest =>
    have hsource : mv.source = c := leads.first mv (by simp [hmoves])
    simp [configurations, hmoves, hsource]

end Leads

end Journal

variable {C E W : Type} [Event E]

theorem Chart.trigger_of_transition {m : Chart C E} {s next : Snapshot C} {trigger : Trigger E}
    (h : m.transition s trigger = .ok next) : next.trigger = trigger.text := by
  unfold transition at h
  obtain ⟨active, -, h⟩ := Except.bind_eq_ok.mp h
  split at h
  · obtain rfl := Except.ok.inj h
    unfold step
    dsimp only
    split <;> rfl
  · cases h

namespace Service

variable {m : Chart C E} {handler : Handler W C} {world : W} {arrived : List (Command E)}
  {log : List (Handled C E W)} {s : Service C E W}

/-- The move that a command led to: its step came to a configuration other than the one before. -/
def Handled.move? (x : Handled C E W) : Option Move :=
  if x.after.current.configuration = x.before.current.configuration then none
  else x.trigger?.map fun trigger =>
    ⟨x.before.current.configuration, x.after.current.configuration, trigger.text,
      x.before.clockwork.calendar x.before.clock⟩

def moves (log : List (Handled C E W)) : List Move := log.filterMap (·.move?)

/-- The journal tells the latest moves of a session, and where they led. -/
structure Recounts (m : Chart C E) (log : List (Handled C E W)) (s : Service C E W) : Prop where
  limit : s.journal.limit = some s.options.historyLimit
  recent : s.journal.moves =
    (moves log).drop ((moves log).length - s.options.historyLimit.toNat)
  bounded : s.journal.size ≤ s.options.historyLimit.toNat
  moved : ∀ mv ∈ s.journal.moves, mv.source ≠ mv.target
  linked : s.journal.moves.IsChain fun a b => a.target = b.source
  first : (moves log).length ≤ s.options.historyLimit.toNat →
    ∀ mv ∈ s.journal.moves.head?, mv.source = m.initial.configuration
  last : ∀ mv ∈ s.journal.moves.getLast?, mv.target = s.current.configuration
  path : s.journal.configurations.IsChain (· ≠ ·)
  ends : s.journal.moves ≠ [] →
    s.journal.configurations.getLast? = some s.current.configuration

omit [Event E] in
theorem commit_journal (s : Service C E W) (next : Snapshot C) :
    (s.commit next).1.journal =
      if next.configuration = s.current.configuration then s.journal
      else s.journal.push
        ⟨s.current.configuration, next.configuration, next.trigger,
          s.clockwork.calendar s.clock⟩ := by
  simp [commit]

theorem step_writes (s : Service C E W) (trigger : Trigger E) :
    (s.step trigger).1.options = s.options ∧
      (s.step trigger).1.journal =
        if (s.step trigger).1.current.configuration = s.current.configuration then s.journal
        else s.journal.push ⟨s.current.configuration, (s.step trigger).1.current.configuration,
          trigger.text, s.clockwork.calendar s.clock⟩ := by
  cases h : s.chart.transition s.current trigger with
  | error e =>
    unfold step
    rw [h]
    exact ⟨rfl, (if_pos rfl).symm⟩
  | ok next =>
    have hcommit : (s.step trigger).1.options = s.options ∧
        (s.step trigger).1.journal = (s.commit next).1.journal := by
      unfold step
      rw [h]
      dsimp only
      split <;> exact ⟨rfl, rfl⟩
    rw [hcommit.2, commit_journal, (step_cases h).2.1, ← Chart.trigger_of_transition h]
    exact ⟨hcommit.1, rfl⟩

/-- A command either leaves the configuration and the journal alone, or its step led elsewhere and
was written down. -/
theorem handle_writes (s : Service C E W) (command : Command E) :
    (s.handle command).1.options = s.options ∧
      (((s.handle command).1.current.configuration = s.current.configuration ∧
          (s.handle command).1.journal = s.journal) ∨
        ∃ trigger, s.triggerOf? command = some trigger ∧
          (s.handle command).1.current.configuration ≠ s.current.configuration ∧
          (s.handle command).1.journal = s.journal.push ⟨s.current.configuration,
            (s.handle command).1.current.configuration, trigger.text,
            s.clockwork.calendar s.clock⟩) := by
  by_cases running : s.status = .running
  · rcases handle_running running command with ⟨-, hsame, -⟩ | ⟨trigger, timers, hled, hstep, -⟩
    · rw [hsame]
      exact ⟨rfl, .inl ⟨rfl, rfl⟩⟩
    · obtain ⟨hoptions, hjournal⟩ := step_writes { s with timers } trigger
      rw [hstep]
      refine ⟨hoptions, ?_⟩
      split at hjournal
      · rename_i hstays
        exact .inl ⟨hstays, hjournal⟩
      · rename_i hmoves
        exact .inr ⟨trigger, hled, hmoves, hjournal⟩
  · rw [handle_refused running]
    exact ⟨rfl, .inl ⟨rfl, rfl⟩⟩

/-- What is kept from command to command: the journal holds the latest moves, and all of them lead
from the initial configuration to the present one. -/
structure Written (m : Chart C E) (log : List (Handled C E W)) (s : Service C E W) : Prop where
  limit : s.journal.limit = some s.options.historyLimit
  recent : s.journal.moves =
    (moves log).drop ((moves log).length - s.options.historyLimit.toNat)
  leads : Journal.Leads m.initial.configuration (moves log) s.current.configuration

theorem written_start {options : Options} {clockwork : Clockwork}
    (h : (Service.start m handler options clockwork world).result = .ok s) : Written m [] s := by
  obtain ⟨-, rfl⟩ := start_eq_ok_iff.mp h
  exact ⟨rfl, List.drop_nil.symm, .stay _⟩

theorem Written.next (written : Written m log s) {s' : Service C E W} {command : Command E}
    {answer : Answer C} (hhead : s.queue.head? = some command)
    (hnext : s.next? = some (s', answer)) : Written m (log ++ [⟨s, command, answer, s'⟩]) s' := by
  have hhandle := next?_eq hhead hnext
  obtain ⟨hoptions, hcases⟩ := handle_writes { s with queue := s.queue.tail } command
  rw [hhandle] at hoptions hcases
  have hmoves : moves (log ++ [⟨s, command, answer, s'⟩]) =
      moves log ++ (Handled.move? ⟨s, command, answer, s'⟩).toList := by
    unfold moves
    rw [List.filterMap_append]
    cases h : Handled.move? ⟨s, command, answer, s'⟩ <;> simp [h]
  rcases hcases with ⟨hstays, hjournal⟩ | ⟨trigger, hled, hmoved, hjournal⟩
  · have hnone : Handled.move? ⟨s, command, answer, s'⟩ = none := if_pos hstays
    rw [hnone, Option.toList_none, List.append_nil] at hmoves
    constructor
    · rw [hjournal, hoptions]
      exact written.limit
    · rw [hjournal, hoptions, hmoves]
      exact written.recent
    · rw [hmoves, hstays]
      exact written.leads
  · have hsome : Handled.move? ⟨s, command, answer, s'⟩ = some ⟨s.current.configuration,
        s'.current.configuration, trigger.text, s.clockwork.calendar s.clock⟩ := by
      have htrigger : s.triggerOf? command = some trigger := hled
      rw [Handled.move?, if_neg hmoved, Handled.trigger?, htrigger]
      rfl
    rw [hsome, Option.toList_some] at hmoves
    constructor
    · rw [hjournal, hoptions, Journal.push_limit]
      exact written.limit
    · rw [hjournal, hoptions, hmoves]
      exact Journal.push_recent written.limit written.recent _
    · rw [hmoves]
      exact written.leads.concat rfl (Ne.symm hmoved)

theorem Session.written (session : Session m handler world arrived log s) : Written m log s := by
  induction session with
  | start h => exact written_start h
  | submit command _ ih => exact ⟨ih.limit, ih.recent, ih.leads⟩
  | ring clock _ ih => exact ⟨ih.limit, ih.recent, ih.leads⟩
  | wait clock _ ih => exact ⟨ih.limit, ih.recent, ih.leads⟩
  | next _ hhead hnext ih => exact ih.next hhead hnext

theorem Written.recounts (written : Written m log s) : Recounts m log s := by
  obtain ⟨b, leads⟩ := written.leads.drop ((moves log).length - s.options.historyLimit.toNat)
  rw [← written.recent] at leads
  refine {
    limit := written.limit
    recent := written.recent
    bounded := ?_
    moved := leads.moved
    linked := leads.linked
    first := fun hall => ?_
    last := leads.last
    path := ?_
    ends := fun hne => ?_ }
  · rw [Journal.size, written.recent, List.length_drop]
    omega
  · rw [written.recent, Nat.sub_eq_zero_of_le hall, List.drop_zero]
    exact written.leads.first
  · by_cases hne : s.journal.moves = []
    · simp [Journal.configurations, hne]
    · rw [leads.configurations_eq hne]
      exact leads.path
  · rw [leads.configurations_eq hne]
    exact leads.ends

/-- In any session the journal holds the latest moves, and a command for the history is answered
with it. A handler that never crashes keeps the service running. -/
theorem history_recounts {spec : ChartSpec C E} (built : spec.build = .ok m)
    (session : Session m handler world arrived log s) :
    Recounts m log s ∧ (handler.Returns → s.status = .running) ∧
      (s.queue.head? = some .history → ∃ s' answer, s.next? = some (s', answer) ∧
        answer.reply = some (.history
          (if s.status = .running then .ok s.journal else .error .stopped))) := by
  refine ⟨session.written.recounts, fun returns => ?_, fun hhead => ?_⟩
  · exact (session.folded (ChartSpec.isTree_of_build built) returns).running
  · obtain ⟨rest, hqueue⟩ := List.head?_eq_some_iff.mp hhead
    refine ⟨_, _, by rw [next?, hqueue], ?_⟩
    by_cases running : s.status = .running
    · rw [handle_history (s := { s with queue := rest }) running, if_pos running]
    · rw [handle_refused (s := { s with queue := rest }) running, if_neg running]
      rfl

/-- The editor that an idle user left and another locked is asked for its history. -/
def askedEditor : Service (EditorContext Unit) (EditorEvent Unit) (List String) :=
  busyEditor.drain.1.submit .history

theorem askedEditor_recounts : ∃ arrived log,
    Session idleChart reticent [] arrived log askedEditor ∧ Recounts idleChart log askedEditor ∧
    askedEditor.journal.moves.map (·.trigger) =
      ["after#editable.pristine.active", "FOREIGN_LOCK_ADDED"] ∧
    ∃ s' answer, askedEditor.next? = some (s', answer) ∧
      answer.reply = some (.history (.ok askedEditor.journal)) := by
  have built := Editor.build_spec (T := Unit) (fun _ _ => .clean)
    (some { Duration.zero with secs := 1 })
  have busy : Session idleChart reticent [] _ [] busyEditor :=
    (((Session.start start_openEditor).ring 1000).submit _).submit _ |>.submit _
  obtain ⟨log, session, -⟩ := busy.drain (ChartSpec.isTree_of_build built) reticent_returns
  obtain ⟨recounts, running, asked⟩ := history_recounts built (session.submit .history)
  have hqueue : busyEditor.drain.1.queue = [] := List.isEmpty_iff.mp (by decide +kernel)
  obtain ⟨s', answer, hnext, hreply⟩ := asked (by rw [submit, hqueue]; rfl)
  rw [if_pos (running reticent_returns)] at hreply
  exact ⟨_, log, session.submit .history, recounts, by decide +kernel, s', answer, hnext, hreply⟩

end Service
end Statechart
