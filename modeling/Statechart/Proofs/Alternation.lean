import Mathlib.Data.List.Nodup
import Statechart.Proofs.Delays
import Statechart.Proofs.Trace

/-! Accounts of delays. Over a whole run the starts and the ends of a state's delay take turns: a
state is entered only while it is not active and exited only while it is, also between the
transitions of one step. -/
namespace Statechart

variable {C E : Type}

namespace Fired

def concerns (state : Path) : Fired → Bool
  | .schedule p _ | .cancel p => p == state
  | _ => false

/-- So many starts and ends of a delay in turn, an end first if it is under way. -/
def turns (state : Path) (delay : Duration) : Bool → Nat → List Fired
  | _, 0 => []
  | false, k + 1 => .schedule state delay :: turns state delay true k
  | true, k + 1 => .cancel state :: turns state delay false k

def Alternates (state : Path) (delay : Duration) (was : Bool) (fired : List Fired) : Prop :=
  ∃ k, fired.filter (concerns state) = turns state delay was k

variable {state : Path} {delay : Duration}

theorem isTimed_of_concerns {f : Fired} (h : f.concerns state = true) : f.isTimed = true := by
  cases f with
  | schedule p d => rfl
  | cancel p => rfl
  | run name => exact h
  | assign name => exact h

theorem tells_concerning (state : Path) (was : Bool) (fired : List Fired) :
    tells state was (fired.filter (concerns state)) = tells state was fired := by
  refine tells_filter_of fun f was hf => ?_
  cases f with
  | schedule p d =>
    have hp : (p == state) = false := hf
    simp [tell, hp]
  | cancel p =>
    have hp : (p == state) = false := hf
    simp [tell, bne, hp]
  | run name => rfl
  | assign name => rfl

theorem turns_append (was : Bool) (k l : Nat) :
    turns state delay was k ++ turns state delay (tells state was (turns state delay was k)) l =
      turns state delay was (k + l) := by
  induction k generalizing was with
  | zero => simp [turns, tells]
  | succ k ih =>
    rw [Nat.succ_add]
    cases was with
    | false =>
      have h := ih true
      simpa [turns, tells, tell] using h
    | true =>
      have h := ih false
      simpa [turns, tells, tell] using h

theorem Alternates.append {was : Bool} {fs gs : List Fired} (hf : Alternates state delay was fs)
    (hg : Alternates state delay (tells state was fs) gs) :
    Alternates state delay was (fs ++ gs) := by
  obtain ⟨k, hk⟩ := hf
  obtain ⟨l, hl⟩ := hg
  refine ⟨k + l, ?_⟩
  rw [List.filter_append, hk, hl, ← turns_append, ← hk, tells_concerning]

theorem alternates_timed {was : Bool} {fired : List Fired} :
    Alternates state delay was (fired.filter isTimed) ↔ Alternates state delay was fired := by
  have h : (fired.filter isTimed).filter (concerns state) = fired.filter (concerns state) := by
    rw [List.filter_filter]
    refine List.filter_congr fun f _ => ?_
    by_cases hf : f.concerns state = true
    · simp [hf, isTimed_of_concerns hf]
    · simp [hf]
  rw [Alternates, Alternates, h]

theorem tells_iff_last {fired : List Fired} : tells state false fired = true ↔
    ∃ d, (fired.filter (concerns state)).getLast? = some (.schedule state d) := by
  induction fired using List.reverseRecOn with
  | nil => simp [tells]
  | append_singleton fired f ih =>
    rw [tells_append, List.filter_append]
    by_cases hf : f.concerns state = true
    · rw [List.filter_cons_of_pos hf, List.filter_nil, List.getLast?_concat]
      cases f with
      | schedule p d =>
        obtain rfl : p = state := by simpa [concerns] using hf
        simp [tells, tell]
      | cancel p =>
        obtain rfl : p = state := by simpa [concerns] using hf
        simp [tells, tell]
      | run name => cases hf
      | assign name => cases hf
    · rw [List.filter_cons_of_neg hf, List.filter_nil, List.append_nil, ← ih,
        ← tells_concerning _ _ [f], List.filter_cons_of_neg hf]
      rfl

end Fired

theorem filter_flatMap_single {keep : Fired → Bool} {f : NodeId → List Fired} {i : NodeId}
    {a : Fired} (h : ∀ j, (f j).filter keep = if j = i then [a] else []) {ids : List NodeId}
    (nodup : ids.Nodup) : (ids.flatMap f).filter keep = if i ∈ ids then [a] else [] := by
  induction ids with
  | nil => rfl
  | cons j rest ih =>
    obtain ⟨hj, hrest⟩ := List.nodup_cons.mp nodup
    rw [List.flatMap_cons, List.filter_append, h, ih hrest]
    by_cases hji : j = i
    · subst hji
      simp [hj]
    · simp [hji, Ne.symm hji]

theorem Fired.alternates_flatMap {state : Path} {delay : Duration} {was : Bool}
    {f : NodeId → List Fired} {i : NodeId} {a : Fired}
    (h : ∀ j, (f j).filter (concerns state) = if j = i then [a] else []) {ids : List NodeId}
    (nodup : ids.Nodup) (ha : i ∈ ids → [a] = turns state delay was 1) :
    Alternates state delay was (ids.flatMap f) := by
  rw [Alternates, filter_flatMap_single h nodup]
  by_cases hi : i ∈ ids
  · rw [if_pos hi]
    exact ⟨1, ha hi⟩
  · rw [if_neg hi]
    exact ⟨0, rfl⟩

namespace Chart

variable {m : Chart C E}

def HasDelay (m : Chart C E) (state : Path) : Prop :=
  ∃ i n, m.node? i = some n ∧ n.after.isSome = true ∧ n.path = state

/-- What was fired so far accounts for the delays of the nodes, the active ones being given. -/
structure Accounts (m : Chart C E) (active : List NodeId) (fired : List Fired) : Prop where
  alternates : ∀ i n d, m.node? i = some n → n.after = some d →
    Fired.Alternates n.path d.delay false fired
  last : ∀ i n, m.node? i = some n →
    ((∃ delay, (fired.filter (Fired.concerns n.path)).getLast? = some (.schedule n.path delay)) ↔
      i ∈ active ∧ n.after.isSome = true)
  only : ∀ f ∈ fired, ∀ state, f.concerns state = true → m.HasDelay state

theorem Arranged.nodup {active : List NodeId} (arranged : m.Arranged active) : active.Nodup := by
  rw [← arranged]
  exact List.nodup_range.filter _

theorem delayed_of_concerns {id : NodeId} {f : Fired} {state : Path}
    (h : f ∈ m.ended id ∨ f ∈ m.started id) (hf : f.concerns state = true) :
    m.HasDelay state := by
  rcases h with h | h
  · obtain ⟨n, hn, hd, rfl⟩ := mem_ended.mp h
    exact ⟨id, n, hn, hd, by simpa [Fired.concerns] using hf⟩
  · obtain ⟨n, d, hn, hd, rfl⟩ := mem_started.mp h
    exact ⟨id, n, hn, by simp [hd], by simpa [Fired.concerns] using hf⟩

namespace IsTree

variable (tree : m.IsTree)
include tree

section

variable {i : NodeId} {n : Node C E} {d : Delayed C E} (hn : m.node? i = some n)
  (hd : n.after = some d)
include hn hd

theorem concerning_started (j : NodeId) : (m.started j).filter (Fired.concerns n.path) =
    if j = i then [.schedule n.path d.delay] else [] := by
  by_cases hj : j = i
  · subst hj
    simp [started, hn, hd, Fired.concerns]
  · rw [if_neg hj, List.filter_eq_nil_iff]
    intro f hf hc
    obtain ⟨n', d', hn', -, rfl⟩ := mem_started.mp hf
    exact hj (tree.path_inj hn' hn (by simpa [Fired.concerns] using hc))

theorem concerning_ended (j : NodeId) : (m.ended j).filter (Fired.concerns n.path) =
    if j = i then [.cancel n.path] else [] := by
  by_cases hj : j = i
  · subst hj
    simp [ended, hn, hd, Fired.concerns]
  · rw [if_neg hj, List.filter_eq_nil_iff]
    intro f hf hc
    obtain ⟨n', hn', -, rfl⟩ := mem_ended.mp hf
    exact hj (tree.path_inj hn' hn (by simpa [Fired.concerns] using hc))

theorem alternates_started {ids : List NodeId} (nodup : ids.Nodup) {was : Bool}
    (hwas : i ∈ ids → was = false) :
    Fired.Alternates n.path d.delay was (ids.flatMap m.started) := by
  apply Fired.alternates_flatMap (tree.concerning_started hn hd) nodup
  intro hi
  rw [hwas hi]
  rfl

theorem alternates_ended {ids : List NodeId} (nodup : ids.Nodup) {was : Bool}
    (hwas : i ∈ ids → was = true) :
    Fired.Alternates n.path d.delay was (ids.flatMap m.ended) := by
  apply Fired.alternates_flatMap (tree.concerning_ended hn hd) nodup
  intro hi
  rw [hwas hi]
  rfl

variable (quiet : ∀ r, m.node? root = some r → r.after = none)
include quiet

theorem alternates_delaysOf {active : List NodeId} (legal : m.Legal active)
    (arranged : m.Arranged active) {selected : NodeId × Candidate C E}
    (ht : selected.2.target ∈ m.ids) :
    Fired.Alternates n.path d.delay (active.contains i) (m.delaysOf active selected) := by
  obtain ⟨source, candidate⟩ := selected
  unfold delaysOf
  dsimp only
  split
  · exact ⟨0, rfl⟩
  · rename_i hs
    have hs : source ∈ active := by simpa using hs
    split
    · exact ⟨0, rfl⟩
    · apply Fired.Alternates.append
      · -- what is exited was active
        apply tree.alternates_ended hn hd
        · exact List.nodup_reverse.mpr (arranged.nodup.filter _)
        · intro hi
          simpa using (List.mem_filter.mp (List.mem_reverse.mp hi)).1
      · -- what is entered was not active, or it was exited; the root has no delay
        have hne : i ≠ root := by
          rintro rfl
          simp [quiet n hn] at hd
        apply tree.alternates_started hn hd
        · exact List.nodup_range.filter _
        · intro hi
          have hbelow := tree.domain_above_entered legal hs ht hne hi
          rw [tree.tells_flatMap_ended hn (by simp [hd])]
          simp [hbelow]

theorem alternates_delays {active : List NodeId} (legal : m.Legal active)
    (arranged : m.Arranged active) {selected : List (NodeId × Candidate C E)}
    (ht : ∀ s ∈ selected, s.2.target ∈ m.ids) :
    Fired.Alternates n.path d.delay (active.contains i) (m.delays active selected) := by
  induction selected generalizing active with
  | nil => exact ⟨0, rfl⟩
  | cons s rest ih =>
    have hs := ht s List.mem_cons_self
    apply Fired.Alternates.append
    · exact tree.alternates_delaysOf hn hd quiet legal arranged hs
    · rw [tree.tells_delaysOf hn (by simp [hd])]
      exact ih (tree.legal_advance legal hs) (arranged_advance arranged s)
        fun r hr => ht r (List.mem_cons_of_mem _ hr)

end

/-- The last that was fired about a node tells whether it is active, if delays alone of nodes that
have one were ever started. -/
theorem last_of_tells {active : List NodeId} {fired : List Fired}
    (tells : ∀ i n, m.node? i = some n → n.after.isSome = true →
      Fired.tells n.path false fired = active.contains i)
    (only : ∀ f ∈ fired, ∀ state, f.concerns state = true → m.HasDelay state)
    {i : NodeId} {n : Node C E} (hn : m.node? i = some n) :
    (∃ delay, (fired.filter (Fired.concerns n.path)).getLast? = some (.schedule n.path delay)) ↔
      i ∈ active ∧ n.after.isSome = true := by
  by_cases hd : n.after.isSome = true
  · rw [← Fired.tells_iff_last, tells i n hn hd]
    simp [hd]
  · refine iff_of_false ?_ fun h => hd h.2
    rintro ⟨delay, hlast⟩
    obtain ⟨hmem, hc⟩ := List.mem_filter.mp (List.mem_of_getLast? hlast)
    obtain ⟨j, n', hn', hd', hpath⟩ := only _ hmem _ hc
    obtain rfl := tree.path_inj hn' hn hpath
    rw [hn] at hn'
    exact hd (Option.some.inj hn' ▸ hd')

end IsTree

theorem Accounts.tells {active : List NodeId} {fired : List Fired} (h : m.Accounts active fired)
    {i : NodeId} {n : Node C E} (hn : m.node? i = some n) (hd : n.after.isSome = true) :
    Fired.tells n.path false fired = active.contains i := by
  rw [Bool.eq_iff_iff, Fired.tells_iff_last, h.last i n hn, List.contains_iff_mem]
  exact and_iff_left hd

variable [Event E]

def history (m : Chart C E) (strides : List (Stride C E)) : List Fired :=
  m.initial.fired ++ strides.flatMap (·.after.fired)

namespace IsTree

variable (tree : m.IsTree) (quiet : ∀ r, m.node? root = some r → r.after = none)
include tree

theorem accounts_initial : m.Accounts (m.defaults root) m.initial.fired := by
  have only : ∀ f ∈ m.initial.fired, ∀ state, f.concerns state = true → m.HasDelay state := by
    intro f hf state hc
    have htimed := List.mem_filter.mpr ⟨hf, Fired.isTimed_of_concerns hc⟩
    rw [timed_initial] at htimed
    obtain ⟨id, -, hid⟩ := List.mem_flatMap.mp htimed
    exact delayed_of_concerns (.inr hid) hc
  constructor
  case alternates =>
    intro i n d hn hd
    rw [← Fired.alternates_timed, timed_initial]
    exact tree.alternates_started hn hd (List.nodup_range.filter _) fun _ => rfl
  case last =>
    intro i n hn
    refine tree.last_of_tells (fun j n' hn' hd' => ?_) only hn
    rw [tree.tells_initial hn' hd', tree.isActive_settled tree.settled_initial]
  case only => exact only

include quiet

theorem accounts_step {s : Snapshot C} {active : List NodeId} {fired : List Fired}
    (settled : m.Settled active s.configuration) (h : m.Accounts active fired)
    (trigger : Trigger E) :
    m.Accounts (m.applied s trigger active).active
      (fired ++ (m.step s trigger active).fired) := by
  have only : ∀ f ∈ fired ++ (m.step s trigger active).fired, ∀ state,
      f.concerns state = true → m.HasDelay state := by
    intro f hf state hc
    rcases List.mem_append.mp hf with hf | hf
    · exact h.only f hf state hc
    · have htimed := List.mem_filter.mpr ⟨hf, Fired.isTimed_of_concerns hc⟩
      rw [timed_applied] at htimed
      obtain ⟨id, hid⟩ := mem_delays htimed
      exact delayed_of_concerns hid hc
  constructor
  case alternates =>
    intro i n d hn hd
    apply (h.alternates i n d hn hd).append
    rw [h.tells hn (by simp [hd]), ← Fired.alternates_timed, timed_applied]
    exact tree.alternates_delays hn hd quiet settled.1 settled.2.1
      fun _ hs => tree.target_of_mem_select hs
  case last =>
    intro i n hn
    refine tree.last_of_tells (fun j n' hn' hd' => ?_) only hn
    have hstep := tree.tells_step hn' hd' settled trigger
    rw [tree.isActive_settled settled, tree.isActive_settled (tree.settled_step settled trigger)]
      at hstep
    rw [Fired.tells_append, h.tells hn' hd', hstep]
  case only => exact only

theorem accounts_trace {strides : List (Stride C E)} {s : Snapshot C} (trace : m.Trace strides s) :
    ∃ active, m.Settled active s.configuration ∧ m.Accounts active (m.history strides) := by
  induction trace with
  | start =>
    refine ⟨_, tree.settled_initial, ?_⟩
    simpa [history] using tree.accounts_initial
  | @step strides s next trigger _ hnext ih =>
    obtain ⟨active, settled, accounts⟩ := ih
    rw [tree.transition_settled settled] at hnext
    obtain rfl := Except.ok.inj hnext
    refine ⟨_, tree.settled_step settled trigger, ?_⟩
    have hhistory : m.history (strides ++ [⟨s, trigger, m.step s trigger active⟩]) =
        m.history strides ++ (m.step s trigger active).fired := by
      simp [history]
    rw [hhistory]
    exact tree.accounts_step quiet settled accounts trigger

end IsTree
end Chart

theorem ChartSpec.root_undelayed {spec : ChartSpec C E} {m : Chart C E}
    (built : spec.build = .ok m) {r : Node C E} (hr : m.node? Chart.root = some r) :
    r.after = none := by
  obtain ⟨-, rfl⟩ := build_eq_ok_iff.mp built
  rw [node?_root] at hr
  rw [← Option.some.inj hr]
  rfl

namespace Chart

variable [Event E] {m : Chart C E}

/-- Any triggers lead to the end of a trace, and all that was fired up to there accounts for the
delays: for each node with one, starts and ends in turn, a start first, and the last of them is a
start just when the node is active. -/
theorem delays_accounted {spec : ChartSpec C E} (built : spec.build = .ok m) :
    (∀ triggers : List (Trigger E),
      ∃ strides s, m.Trace strides s ∧ strides.map (·.trigger) = triggers) ∧
    ∀ strides s, m.Trace strides s →
      ∃ active, m.activeOf s.configuration = .ok active ∧
        m.Accounts active (m.history strides) := by
  have tree := ChartSpec.isTree_of_build built
  refine ⟨tree.exists_trace, fun strides s trace => ?_⟩
  obtain ⟨active, settled, accounts⟩ :=
    tree.accounts_trace (fun r hr => ChartSpec.root_undelayed built hr) trace
  exact ⟨active, tree.activeOf_settled settled, accounts⟩

end Chart

/-- A relay that goes starts and ends a delay in one step. -/
theorem relay_accounted : ∃ active, relay.chart.activeOf relayed.configuration = .ok active ∧
    relay.chart.Accounts active
      (relay.chart.history [⟨relay.chart.initial, .event .go, relayed⟩]) :=
  (Chart.delays_accounted relay_built).2 [⟨relay.chart.initial, .event .go, relayed⟩] relayed
    (.step .start relay_goes)

example :
    (relay.chart.history [⟨relay.chart.initial, .event .go, relayed⟩]).filter
        (Fired.concerns ⟨"work.left.busy"⟩) =
      Fired.turns ⟨"work.left.busy"⟩ { Duration.zero with secs := 1 } false 2 := by
  decide +kernel

end Statechart
