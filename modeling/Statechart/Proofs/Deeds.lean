import Statechart.Proofs.Delays
import Statechart.Proofs.Registry

/-! Traces of steps, the latest first, and what they tell about the timers that are armed at their
end: since when an armed timer has been so, which alarms have been spent, and which states with a
delay have a timer. -/
namespace Statechart

variable {C E : Type}

/-- A step that was taken, with the alarm that led to it and the timers it armed. -/
structure Deed (C : Type) where
  cause : Option Alarm
  next : Snapshot C
  armed : List Alarm

namespace Deed

def Enters (d : Deed C) (state : Path) : Prop := ∃ delay, .schedule state delay ∈ d.next.fired

def Exits (d : Deed C) (state : Path) : Prop := .cancel state ∈ d.next.fired

def Claims (d : Deed C) (state : Path) : Prop := ∃ a, d.cause = some a ∧ a.state = state

/-- How a step goes from one registry to another, `was` being the nodes active before it. -/
structure Leads (m : Chart C E) (was : NodeId → Bool) (t : Timers) (d : Deed C) (r : Timers) :
    Prop where
  tells : ∀ {i n}, m.node? i = some n → n.after.isSome = true →
    Fired.tells n.path (was i) d.next.fired = m.isActive d.next.configuration i
  delayed : ∀ {state}, d.Enters state →
    ∃ i n, m.node? i = some n ∧ n.after.isSome = true ∧ n.path = state
  exited : ∀ {i n}, m.node? i = some n → n.after.isSome = true → d.Exits n.path →
    was i = true ∨ d.Enters n.path
  claimed : ∀ {a}, d.cause = some a → a ∈ t.armed
  earned : ∀ {a}, d.cause = some a → d.next.changed = true →
    ∃ i n, m.node? i = some n ∧ n.after.isSome = true ∧ n.path = a.state ∧ was i = true
  sound : r.Sound
  generation : t.generation ≤ r.generation
  origin : ∀ {a}, a ∈ r.armed →
    (a ∈ t.armed ∧ ¬d.Claims a.state ∧ ¬d.Exits a.state ∧ ¬d.Enters a.state) ∨
      (a ∈ d.armed ∧ d.Enters a.state)
  kept : ∀ {a}, a ∈ t.armed → ¬d.Claims a.state → ¬d.Exits a.state → ¬d.Enters a.state →
    a ∈ r.armed
  started : ∀ {state}, d.Enters state → ∃ a ∈ r.armed, a.state = state
  fresh : ∀ {a}, a ∈ d.armed → t.generation < a.generation ∧ a.generation ≤ r.generation

namespace Leads

variable {m : Chart C E} {was : NodeId → Bool} {t r : Timers} {d : Deed C}

theorem active_after (h : d.Leads m was t r) {i : NodeId} {n : Node C E}
    (hn : m.node? i = some n) (hd : n.after.isSome = true)
    (ha : m.isActive d.next.configuration i = true) :
    d.Enters n.path ∨ (was i = true ∧ ¬d.Exits n.path) := by
  rw [← h.tells hn hd] at ha
  exact Fired.of_tells ha

theorem inactive_after (h : d.Leads m was t r) {i : NodeId} {n : Node C E}
    (hn : m.node? i = some n) (hd : n.after.isSome = true)
    (ha : m.isActive d.next.configuration i = false) :
    d.Exits n.path ∨ (was i = false ∧ ¬d.Enters n.path) := by
  rw [← h.tells hn hd] at ha
  refine (Fired.of_not_tells ha).imp_right fun ⟨hw, hs⟩ => ⟨hw, ?_⟩
  rintro ⟨delay, he⟩
  exact hs delay he

end Leads

/-- Some step of a trace was of one kind, and all the later ones were of another. -/
def Since (later first : Deed C → Prop) (ds : List (Deed C)) : Prop :=
  ∃ since d earlier, ds = since ++ d :: earlier ∧ first d ∧ ∀ e ∈ since, later e

theorem not_since_nil {later first : Deed C → Prop} : ¬Since later first [] := by
  rintro ⟨since, d, earlier, h, -⟩
  simp at h

theorem since_cons {later first : Deed C → Prop} {d : Deed C} {ds : List (Deed C)} :
    Since later first (d :: ds) ↔ first d ∨ (later d ∧ Since later first ds) := by
  constructor
  · rintro ⟨since, e, earlier, hsplit, hfirst, hsince⟩
    cases since with
    | nil =>
      obtain ⟨rfl, rfl⟩ := List.cons.inj hsplit
      exact .inl hfirst
    | cons f rest =>
      obtain ⟨rfl, rfl⟩ := List.cons.inj hsplit
      exact .inr ⟨hsince d List.mem_cons_self, rest, e, earlier, rfl, hfirst,
        fun g hg => hsince g (List.mem_cons_of_mem _ hg)⟩
  · rintro (hfirst | ⟨hlater, since, e, earlier, rfl, hfirst, hsince⟩)
    · exact ⟨[], d, ds, rfl, hfirst, by simp⟩
    · refine ⟨d :: since, e, earlier, rfl, hfirst, fun g hg => ?_⟩
      rcases List.mem_cons.mp hg with rfl | hg
      · exact hlater
      · exact hsince g hg

end Deed

namespace Chart

variable {m : Chart C E}

/-- The node is active after the step that armed the alarm, and after every step since, none of
which exited it. -/
def Unbroken (m : Chart C E) (i : NodeId) (before : List (Deed C)) (a : Alarm) : Prop :=
  Deed.Since (fun d => m.isActive d.next.configuration i = true ∧ ¬d.Exits a.state)
    (fun d => m.isActive d.next.configuration i = true ∧ a ∈ d.armed) before

/-- What holds of the timers and of the nodes active at the end of a trace. -/
structure Kept (m : Chart C E) (ds : List (Deed C)) (now : NodeId → Bool) (t : Timers) :
    Prop where
  sound : t.Sound
  unbroken : ∀ {a i n}, a ∈ t.armed → m.node? i = some n → n.after.isSome = true →
    n.path = a.state → now i = true → m.Unbroken i ds a
  earned : ∀ {later d before a}, ds = later ++ d :: before → d.cause = some a →
    d.next.changed = true →
      ∃ i n, m.node? i = some n ∧ n.path = a.state ∧ m.Unbroken i before a
  spent : ∀ {d a}, d ∈ ds → d.cause = some a → a ∉ t.armed ∧ a.generation ≤ t.generation
  once : (ds.filterMap (·.cause)).Nodup
  past : ∀ {d a}, d ∈ ds → a ∈ d.armed → a.generation ≤ t.generation
  ordered : ds.Pairwise fun d e => ∀ a ∈ d.armed, ∀ b ∈ e.armed, b.generation < a.generation

theorem kept_nil : m.Kept [] (fun _ => false) {} where
  sound := Timers.sound_empty
  unbroken h := by simp at h
  earned h := by simp at h
  spent h := by simp at h
  once := List.nodup_nil
  past h := by simp at h
  ordered := .nil

theorem Kept.cancelAll {ds : List (Deed C)} {now : NodeId → Bool} {t : Timers}
    (kept : m.Kept ds now t) : m.Kept ds now t.cancelAll where
  sound := kept.sound.mono (fun _ h => by simp [Timers.cancelAll] at h) (Nat.le_refl _)
  unbroken h := by simp [Timers.cancelAll] at h
  earned := kept.earned
  spent hd hc := ⟨by simp [Timers.cancelAll], (kept.spent hd hc).2⟩
  once := kept.once
  past := kept.past
  ordered := kept.ordered

theorem Kept.cons {ds : List (Deed C)} {was : NodeId → Bool} {t r : Timers} {d : Deed C}
    (kept : m.Kept ds was t) (h : d.Leads m was t r) :
    m.Kept (d :: ds) (m.isActive d.next.configuration) r where
  sound := h.sound
  unbroken {a i n} ha hn hd hp hnow := by
    refine Deed.since_cons.mpr ?_
    rcases h.origin ha with ⟨hold, -, hx, hs⟩ | ⟨hnew, -⟩
    · rcases h.active_after hn hd hnow with hs' | ⟨hwas, -⟩
      · exact absurd (hp ▸ hs') hs
      · exact .inr ⟨⟨hnow, hx⟩, kept.unbroken hold hn hd hp hwas⟩
    · exact .inl ⟨hnow, hnew⟩
  earned {later e before a} hsplit hc hch := by
    cases later with
    | nil =>
      obtain ⟨rfl, rfl⟩ := List.cons.inj hsplit
      obtain ⟨i, n, hn, hd, hp, hwas⟩ := h.earned hc hch
      exact ⟨i, n, hn, hp, kept.unbroken (h.claimed hc) hn hd hp hwas⟩
    | cons f rest => exact kept.earned (List.cons.inj hsplit).2 hc hch
  spent {e a} he hc := by
    have hold : a ∉ t.armed ∨ d.cause = some a := by
      rcases List.mem_cons.mp he with rfl | he
      · exact .inr hc
      · exact .inl (kept.spent he hc).1
    have hgen : a.generation ≤ t.generation := by
      rcases List.mem_cons.mp he with rfl | he
      · exact kept.sound.past a (h.claimed hc)
      · exact (kept.spent he hc).2
    refine ⟨fun ha => ?_, Nat.le_trans hgen h.generation⟩
    rcases h.origin ha with ⟨hmem, hclaim, -⟩ | ⟨hnew, -⟩
    · rcases hold with hold | hold
      · exact hold hmem
      · exact hclaim ⟨a, hold, rfl⟩
    · exact absurd (h.fresh hnew).1 (Nat.not_lt.mpr hgen)
  once := by
    cases hc : d.cause with
    | none => simpa [hc] using kept.once
    | some a =>
      rw [List.filterMap_cons_some hc]
      refine List.nodup_cons.mpr ⟨fun hmem => ?_, kept.once⟩
      obtain ⟨e, he, hec⟩ := List.mem_filterMap.mp hmem
      exact (kept.spent he hec).1 (h.claimed hc)
  past {e a} he ha := by
    rcases List.mem_cons.mp he with rfl | he
    · exact (h.fresh ha).2
    · exact Nat.le_trans (kept.past he ha) h.generation
  ordered := by
    refine List.pairwise_cons.mpr ⟨fun e he a ha b hb => ?_, kept.ordered⟩
    exact Nat.lt_of_le_of_lt (kept.past he hb) (h.fresh ha).1

/-- An alarm of the state was claimed, and the state has not been entered since. -/
def Claimed (state : Path) (ds : List (Deed C)) : Prop :=
  Deed.Since (fun d => ¬d.Enters state) (fun d => d.Claims state ∧ ¬d.Enters state) ds

/-- A step entered the node and left it again, and since then no step has entered it or was led to
by its alarm. -/
def Stranded (m : Chart C E) (i : NodeId) (state : Path) (ds : List (Deed C)) : Prop :=
  Deed.Since (fun d => ¬d.Enters state ∧ ¬d.Claims state)
    (fun d => d.Enters state ∧ m.isActive d.next.configuration i = false) ds

/-- Every armed timer is that of an active node with a delay, and every such node has its timer
armed unless its alarm has been claimed since it was last entered. -/
structure Agrees (m : Chart C E) (ds : List (Deed C)) (now : NodeId → Bool) (t : Timers) :
    Prop where
  owned : ∀ a ∈ t.armed, ∃ i n, m.node? i = some n ∧ n.after.isSome = true ∧ n.path = a.state ∧
    now i = true
  covered : ∀ i n, m.node? i = some n → n.after.isSome = true → now i = true →
    t.isArmed n.path = true ∨ Claimed n.path ds

/-- What is left of the agreement on any trace: a timer can be armed for a node that is not active,
just when the node is stranded. -/
structure Tracked (m : Chart C E) (ds : List (Deed C)) (now : NodeId → Bool) (t : Timers) :
    Prop where
  owned : ∀ {a}, a ∈ t.armed → ∃ i n, m.node? i = some n ∧ n.after.isSome = true ∧ n.path = a.state
  covered : ∀ {i n}, m.node? i = some n → n.after.isSome = true → now i = true →
    t.isArmed n.path = true ∨ Claimed n.path ds
  stranded : ∀ {i n}, m.node? i = some n → n.after.isSome = true →
    (m.Stranded i n.path ds ↔ t.isArmed n.path = true ∧ now i = false)

theorem tracked_nil : m.Tracked [] (fun _ => false) {} where
  owned h := by simp at h
  covered _ _ h := by simp at h
  stranded _ _ := by
    simp [Stranded, Deed.not_since_nil, Timers.isArmed, Timers.armedFor?]

theorem Tracked.cons {ds : List (Deed C)} {was : NodeId → Bool} {t r : Timers} {d : Deed C}
    (tracked : m.Tracked ds was t) (h : d.Leads m was t r) :
    m.Tracked (d :: ds) (m.isActive d.next.configuration) r where
  owned ha := by
    rcases h.origin ha with ⟨hold, -⟩ | ⟨-, henters⟩
    · exact tracked.owned hold
    · exact h.delayed henters
  covered {i n} hn hd hnow := by
    rw [Timers.isArmed_iff]
    by_cases he : d.Enters n.path
    · exact .inl (h.started he)
    · rcases h.active_after hn hd hnow with he' | ⟨hwas, hx⟩
      · exact absurd he' he
      · rcases tracked.covered hn hd hwas with harmed | hclaimed
        · obtain ⟨a, ha, hs⟩ := Timers.isArmed_iff.mp harmed
          by_cases hc : d.Claims n.path
          · exact .inr (Deed.since_cons.mpr (.inl ⟨hc, he⟩))
          · exact .inl ⟨a, h.kept ha (hs ▸ hc) (hs ▸ hx) (hs ▸ he), hs⟩
        · exact .inr (Deed.since_cons.mpr (.inr ⟨he, hclaimed⟩))
  stranded {i n} hn hd := by
    rw [Stranded, Deed.since_cons, ← Stranded, tracked.stranded hn hd, Timers.isArmed_iff,
      Timers.isArmed_iff]
    constructor
    · rintro (⟨he, hnow⟩ | ⟨⟨he, hc⟩, ⟨a, ha, hs⟩, hwas⟩)
      · exact ⟨h.started he, hnow⟩
      · -- the node was not active and is not entered, so the step does not exit it either
        have hx : ¬d.Exits n.path := fun hx => (h.exited hn hd hx).elim (by simp [hwas]) he
        refine ⟨⟨a, h.kept ha (hs ▸ hc) (hs ▸ hx) (hs ▸ he), hs⟩, ?_⟩
        by_contra hnow
        rcases h.active_after hn hd (by simpa using hnow) with he' | ⟨hwas', -⟩
        · exact he he'
        · simp [hwas] at hwas'
    · rintro ⟨⟨a, ha, hs⟩, hnow⟩
      rcases h.origin ha with ⟨hold, hc, hx, he⟩ | ⟨-, he⟩
      · rw [hs] at hc hx he
        refine .inr ⟨⟨he, hc⟩, ⟨a, hold, hs⟩, ?_⟩
        exact (h.inactive_after hn hd hnow).elim (fun hx' => absurd hx' hx) And.left
      · exact .inl ⟨hs ▸ he, hnow⟩

theorem Tracked.agrees_iff (tree : m.IsTree) {ds : List (Deed C)} {now : NodeId → Bool} {t : Timers}
    (tracked : m.Tracked ds now t) : m.Agrees ds now t ↔
      ∀ i n, m.node? i = some n → n.after.isSome = true → ¬m.Stranded i n.path ds := by
  constructor
  · intro agrees i n hn hd hs
    obtain ⟨harmed, hnow⟩ := (tracked.stranded hn hd).mp hs
    obtain ⟨a, ha, hp⟩ := Timers.isArmed_iff.mp harmed
    obtain ⟨j, n', hn', -, hp', hj⟩ := agrees.owned a ha
    obtain rfl := tree.path_inj hn' hn (hp'.trans hp)
    simp [hnow] at hj
  · intro h
    refine ⟨fun a ha => ?_, fun i n => tracked.covered⟩
    obtain ⟨i, n, hn, hd, hp⟩ := tracked.owned ha
    have harmed := Timers.isArmed_iff.mpr ⟨a, ha, hp.symm⟩
    have hnow : now i ≠ false :=
      fun hnow => h i n hn hd ((tracked.stranded hn hd).mpr ⟨harmed, hnow⟩)
    exact ⟨i, n, hn, hd, hp, by simpa using hnow⟩

end Chart
end Statechart
