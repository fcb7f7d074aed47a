import Statechart.Service

/-! Registries with one timer at most, and the service that waits for it. The alarm of the timer
sleeps until its deadline and then waits in the queue of the service. -/
namespace Statechart

namespace Timers

/-- No timer is armed, and no alarm is to go off. -/
structure AtRest (t : Timers) : Prop where
  armed : t.armed = []
  sleeping : t.sleeping = []
  live : t.closed = false

/-- The timer of the state is the only one, and it was armed last. -/
structure Lone (t : Timers) (state : Path) : Prop where
  armed : t.armed = [⟨state, t.generation⟩]
  sleeping : ∀ sleeper ∈ t.sleeping, sleeper.alarm = ⟨state, t.generation⟩
  live : t.closed = false

theorem atRest_empty : ({} : Timers).AtRest := ⟨rfl, rfl, rfl⟩

variable {t : Timers} {state : Path}

theorem AtRest.cancel (rest : t.AtRest) (state : Path) : t.cancel state = (t, []) := by
  simp [Timers.cancel, armedFor?, rest.armed]

theorem AtRest.claim (rest : t.AtRest) (alarm : Alarm) : t.claim alarm = none := by
  simp [Timers.claim, armedFor?, rest.armed]

theorem AtRest.arm (rest : t.AtRest) (wake : Duration → Nat) (state : Path) (delay : Duration) :
    (t.arm wake state delay).1 =
      { armed := [⟨state, t.generation + 1⟩]
        sleeping := [⟨⟨state, t.generation + 1⟩, wake delay⟩]
        generation := t.generation + 1 } := by
  simp [Timers.arm, rest.cancel, rest.armed, rest.sleeping, rest.live]

theorem Lone.cancel (lone : t.Lone state) :
    (t.cancel state).1.AtRest ∧ (t.cancel state).1.generation = t.generation := by
  have hfind : t.armedFor? state = some ⟨state, t.generation⟩ := by
    simp [armedFor?, lone.armed]
  have hcancel : (t.cancel state).1 =
      { t with
        armed := t.armed.filter (· ≠ ⟨state, t.generation⟩)
        sleeping := t.sleeping.filter (·.alarm ≠ ⟨state, t.generation⟩) } := by
    simp only [Timers.cancel, hfind]
  rw [hcancel]
  refine ⟨⟨?_, ?_, lone.live⟩, rfl⟩
  · simp [lone.armed]
  · exact List.filter_eq_nil_iff.mpr fun sleeper h => by simp [lone.sleeping sleeper h]

theorem Lone.claim_eq_some_iff (lone : t.Lone state) {alarm : Alarm} {r : Timers} :
    t.claim alarm = some r ↔ alarm = ⟨state, t.generation⟩ ∧ r = { t with armed := [] } := by
  constructor
  · intro h
    unfold Timers.claim at h
    split at h
    · rename_i hfind
      obtain rfl : alarm = ⟨state, t.generation⟩ := by
        have hmem : alarm ∈ t.armed := List.mem_of_find?_eq_some hfind
        rwa [lone.armed, List.mem_singleton] at hmem
      obtain rfl := Option.some.inj h
      exact ⟨rfl, by simp [lone.armed]⟩
    · cases h
  · rintro ⟨rfl, rfl⟩
    simp [Timers.claim, armedFor?, lone.armed]

theorem ring_eq (t : Timers) (clock : Nat) :
    t.ring clock =
      (((t.sleeping.filter (·.due ≤ clock)).mergeSort (·.due ≤ ·.due)).map (·.alarm),
        { t with sleeping := t.sleeping.filter fun sleeper => !decide (sleeper.due ≤ clock) }) := by
  unfold ring
  rw [List.partition_eq_filter_filter]
  rfl

theorem mem_ring {clock : Nat} {alarm : Alarm} :
    alarm ∈ (t.ring clock).1 ↔
      ∃ sleeper ∈ t.sleeping, sleeper.due ≤ clock ∧ sleeper.alarm = alarm := by
  simp [ring_eq, and_assoc]

theorem ring_none (h : t.sleeping = []) (clock : Nat) : t.ring clock = ([], t) := by
  cases t
  obtain rfl := h
  rw [ring_eq, List.filter_nil, List.filter_nil, List.mergeSort_nil, List.map_nil]

theorem ring_single {sleeper : Sleeper} (h : t.sleeping = [sleeper]) (clock : Nat) :
    t.ring clock =
      if sleeper.due ≤ clock then ([sleeper.alarm], { t with sleeping := [] }) else ([], t) := by
  cases t
  obtain rfl := h
  rw [ring_eq]
  split <;> rename_i hdue
  · simp only [List.filter_cons, hdue, decide_true, if_true, List.filter_nil, Bool.not_true,
      Bool.false_eq_true, if_false, List.mergeSort_singleton, List.map_cons, List.map_nil]
  · simp only [List.filter_cons, hdue, decide_false, if_false, List.filter_nil, Bool.not_false,
      if_true, List.mergeSort_nil, List.map_nil, Bool.false_eq_true]

end Timers

theorem Sleeper.due_le_iff {sleeper : Sleeper} {clock : Nat} :
    sleeper.due ≤ clock ↔ sleeper.deadline ≤ clock * Service.nanosPerMilli := by
  unfold due Service.nanosPerMilli
  omega

namespace Service

variable {C E W : Type}

/-- The timer of the state is the only one. Its alarm sleeps until the deadline, or has gone off
since and waits in the queue. -/
structure Waits (s : Service C E W) (state : Path) (deadline : Nat) : Prop where
  armed : s.timers.armed = [⟨state, s.timers.generation⟩]
  live : s.timers.closed = false
  alarm : (s.timers.sleeping = [⟨⟨state, s.timers.generation⟩, deadline⟩] ∧
      .timeout ⟨state, s.timers.generation⟩ ∉ s.queue) ∨
    (s.timers.sleeping = [] ∧ .timeout ⟨state, s.timers.generation⟩ ∈ s.queue ∧
      deadline ≤ s.clock * nanosPerMilli)

/-- No alarm in the queue is of a timer yet to come. -/
def Dated (s : Service C E W) : Prop :=
  ∀ alarm, .timeout alarm ∈ s.queue → alarm.generation ≤ s.timers.generation

variable {s s' : Service C E W} {state : Path} {deadline : Nat}

theorem Dated.mono (dated : s.Dated) (hqueue : s'.queue ⊆ s.queue)
    (hgeneration : s.timers.generation ≤ s'.timers.generation) : s'.Dated :=
  fun alarm hmem => Nat.le_trans (dated alarm (hqueue hmem)) hgeneration

theorem Waits.lone (waits : s.Waits state deadline) : s.timers.Lone state := by
  refine ⟨waits.armed, fun sleeper hmem => ?_, waits.live⟩
  rcases waits.alarm with ⟨hsleeping, -⟩ | ⟨hsleeping, -⟩
  · rw [hsleeping, List.mem_singleton] at hmem
    rw [hmem]
  · simp [hsleeping] at hmem

theorem waits_armed {t : Timers} (rest : t.AtRest) {delay : Duration} {wake : Duration → Nat}
    (htimers : s.timers = (t.arm wake state delay).1)
    (dated : ∀ alarm, .timeout alarm ∈ s.queue → alarm.generation ≤ t.generation) :
    s.Waits state (wake delay) := by
  rw [rest.arm] at htimers
  refine ⟨by rw [htimers], by rw [htimers], .inl ⟨by rw [htimers], fun hmem => ?_⟩⟩
  rw [htimers] at hmem
  exact absurd (dated _ hmem) (Nat.not_succ_le_self _)

theorem Waits.next (waits : s.Waits state deadline) {command : Command E}
    (hhead : s.queue.head? = some command)
    (hother : command ≠ .timeout ⟨state, s.timers.generation⟩) (htimers : s'.timers = s.timers)
    (hclock : s'.clock = s.clock) (hqueue : s'.queue = s.queue.tail) :
    s'.Waits state deadline := by
  obtain ⟨rest, hs⟩ := List.head?_eq_some_iff.mp hhead
  obtain ⟨harmed, hlive, halarm⟩ := waits
  refine ⟨by rw [htimers, harmed], by rw [htimers, hlive], ?_⟩
  rw [htimers, hclock, hqueue, hs, List.tail_cons]
  rw [hs, List.mem_cons, not_or] at halarm
  rcases halarm with ⟨hsleeping, -, hnot⟩ | ⟨hsleeping, hmem, hdue⟩
  · exact .inl ⟨hsleeping, hnot⟩
  · exact .inr ⟨hsleeping, hmem.resolve_left hother.symm, hdue⟩

/-- Its alarm is claimed when it is due, and leaves the registry at rest. -/
theorem Waits.claim (waits : s.Waits state deadline) {alarm : Alarm} {t : Timers}
    (hhead : s.queue.head? = some (.timeout alarm)) (hclaim : s.timers.claim alarm = some t) :
    alarm.state = state ∧ deadline ≤ s.clock * nanosPerMilli ∧ t.AtRest ∧
      t.generation = s.timers.generation := by
  obtain ⟨rfl, rfl⟩ := waits.lone.claim_eq_some_iff.mp hclaim
  rcases waits.alarm with ⟨-, hnot⟩ | ⟨hsleeping, -, hdue⟩
  · exact absurd (List.mem_of_head? hhead) hnot
  · exact ⟨rfl, hdue, ⟨rfl, hsleeping, waits.live⟩, rfl⟩

theorem Waits.submit (waits : s.Waits state deadline) {command : Command E}
    (h : ∀ alarm, command ≠ .timeout alarm) : (s.submit command).Waits state deadline where
  armed := waits.armed
  live := waits.live
  alarm := by
    rcases waits.alarm with ⟨hsleeping, hqueue⟩ | ⟨hsleeping, hqueue, hdue⟩
    · exact .inl ⟨hsleeping, by simpa [Service.submit, hqueue] using (h _).symm⟩
    · exact .inr ⟨hsleeping, List.mem_append_left _ hqueue, hdue⟩

theorem Waits.wait (waits : s.Waits state deadline) {clock : Nat} (h : s.clock ≤ clock) :
    Waits { s with clock } state deadline where
  armed := waits.armed
  live := waits.live
  alarm := waits.alarm.imp_right fun ⟨hsleeping, hqueue, hdue⟩ =>
    ⟨hsleeping, hqueue, Nat.le_trans hdue (Nat.mul_le_mul_right _ h)⟩

theorem Waits.ring (waits : s.Waits state deadline) {clock : Nat} (h : s.clock ≤ clock) :
    (s.ringAt clock).Waits state deadline := by
  rcases waits.alarm with ⟨hsleeping, hqueue⟩ | ⟨hsleeping, hqueue, hdue⟩
  · have hring := Timers.ring_single hsleeping clock
    split at hring
    · rename_i hdue
      refine ⟨?_, ?_, .inr ⟨?_, ?_, Sleeper.due_le_iff.mp hdue⟩⟩
      all_goals simp only [ringAt, hring]
      · exact waits.armed
      · exact waits.live
      · simp
    · refine ⟨?_, ?_, .inl ⟨?_, ?_⟩⟩
      all_goals simp only [ringAt, hring]
      · exact waits.armed
      · exact waits.live
      · exact hsleeping
      · simpa using hqueue
  · have hring := Timers.ring_none hsleeping clock
    have hlater := Nat.le_trans hdue (Nat.mul_le_mul_right _ h)
    refine ⟨?_, ?_, .inr ⟨?_, ?_, hlater⟩⟩
    all_goals simp only [ringAt, hring]
    · exact waits.armed
    · exact waits.live
    · exact hsleeping
    · simpa using hqueue

theorem Dated.ring (dated : s.Dated)
    (asleep : ∀ sleeper ∈ s.timers.sleeping, sleeper.alarm.generation ≤ s.timers.generation)
    (clock : Nat) : (s.ringAt clock).Dated := by
  intro alarm hmem
  rcases List.mem_append.mp hmem with hqueue | hcommand
  · exact dated alarm hqueue
  · obtain ⟨rung, hrung, heq⟩ := List.mem_map.mp hcommand
    obtain ⟨sleeper, hsleeper, -, rfl⟩ := Timers.mem_ring.mp hrung
    obtain rfl := Command.timeout.inj heq
    exact asleep sleeper hsleeper

end Service
end Statechart
