import Statechart.Proofs.Conduct

/-! Preemption. A selected transition is passed over when an earlier one of its step has exited its
source. But a step only asks whether the source is active, and so it takes a source that was exited
and entered again for one that stayed. -/
namespace Statechart
namespace Chart

variable {C E : Type} {m : Chart C E}

/-- What a selected transition has exited and entered. -/
structure Change where
  exited : List NodeId
  entered : List NodeId

/-- The changes that selected transitions make when they are taken one after another. -/
def changes (m : Chart C E) : List NodeId → List (NodeId × Candidate C E) → List Change
  | _, [] => []
  | active, t :: rest =>
    ⟨m.exits active t, m.enters active t⟩ :: m.changes (m.advance active t) rest

def Stays (i : NodeId) (changes : List Change) : Prop := ∀ c ∈ changes, i ∉ c.exited

/-- One of the changes has entered the node, and none since has exited it. -/
def Returns (i : NodeId) (changes : List Change) : Prop :=
  ∃ before c after, changes = before ++ c :: after ∧ i ∈ c.entered ∧ Stays i after

theorem stays_cons {i : NodeId} {c : Change} {changes : List Change} :
    Stays i (c :: changes) ↔ i ∉ c.exited ∧ Stays i changes := List.forall_mem_cons

theorem returns_cons {i : NodeId} {c : Change} {changes : List Change} :
    Returns i (c :: changes) ↔ (i ∈ c.entered ∧ Stays i changes) ∨ Returns i changes := by
  constructor
  · rintro ⟨before, d, after, hsplit, hentered, hstays⟩
    cases before with
    | nil =>
      obtain ⟨rfl, rfl⟩ := List.cons.inj hsplit
      exact .inl ⟨hentered, hstays⟩
    | cons b rest =>
      obtain ⟨rfl, rfl⟩ := List.cons.inj hsplit
      exact .inr ⟨rest, d, after, rfl, hentered, hstays⟩
  · rintro (⟨hentered, hstays⟩ | ⟨before, d, after, rfl, hentered, hstays⟩)
    · exact ⟨[], c, changes, rfl, hentered, hstays⟩
    · exact ⟨c :: before, d, after, rfl, hentered, hstays⟩

namespace IsTree

variable (tree : m.IsTree)
include tree

/-- Active in the end is what was so and stayed, and what was entered and stayed since. -/
theorem mem_foldl_advance {active : List NodeId} (legal : m.Legal active)
    {ts : List (NodeId × Candidate C E)} (targets : ∀ t ∈ ts, t.2.target ∈ m.ids) {i : NodeId} :
    i ∈ ts.foldl m.advance active ↔
      (i ∈ active ∧ Stays i (m.changes active ts)) ∨ Returns i (m.changes active ts) := by
  induction ts generalizing active with
  | nil => simp [changes, Stays, Returns]
  | cons t rest ih =>
    have ih := ih (tree.legal_advance legal (targets t List.mem_cons_self))
      fun u hu => targets u (List.mem_cons_of_mem _ hu)
    rw [List.foldl_cons, ih, mem_advance_iff legal, changes, stays_cons, returns_cons]
    tauto

theorem not_stays_of_returns {active : List NodeId} (legal : m.Legal active)
    {ts : List (NodeId × Candidate C E)} (targets : ∀ t ∈ ts, t.2.target ∈ m.ids) {i : NodeId}
    (hi : i ≠ root) (hactive : i ∈ active) (h : Returns i (m.changes active ts)) :
    ¬Stays i (m.changes active ts) := by
  induction ts generalizing active with
  | nil => simp [changes, Returns] at h
  | cons t rest ih =>
    have htarget := targets t List.mem_cons_self
    rw [changes, stays_cons]
    rintro ⟨hstays, hrest⟩
    rcases returns_cons.mp h with ⟨hentered, -⟩ | hreturns
    · have habove := tree.scope_above_enters legal htarget hi hentered
      exact hstays (mem_exits.mpr ⟨(mem_enters.mp hentered).1, hactive, habove⟩)
    · exact ih (tree.legal_advance legal htarget) (fun u hu => targets u (List.mem_cons_of_mem _ hu))
        ((mem_advance_iff legal).mpr (.inl ⟨hactive, hstays⟩)) hreturns hrest

end IsTree

variable [Event E]

/-- A step takes one of the transitions it has selected just when its source has stayed active so far,
or was exited and then entered again for good. In every other case it passes it over. -/
theorem taken_iff_stays_or_returns {spec : ChartSpec C E} (built : spec.build = .ok m)
    {s : Snapshot C} {trigger : Trigger E} {active : List NodeId}
    {earlier later : List (NodeId × Candidate C E)} {t : NodeId × Candidate C E} {p : Progress C}
    (turn : m.ComesTo s trigger active earlier t later p) :
    (t.1 ∈ p.active ↔
      Stays t.1 (m.changes active earlier) ∨ Returns t.1 (m.changes active earlier)) ∧
    ¬(Stays t.1 (m.changes active earlier) ∧ Returns t.1 (m.changes active earlier)) ∧
    (t.1 ∉ p.active → m.take trigger p t = p) ∧
    (t.1 ∈ p.active → p.Performs trigger
      (m.passEffects (m.exits p.active t) t.2.actions (m.enters p.active t))
      (m.take trigger p t)) := by
  have tree := ChartSpec.isTree_of_build built
  obtain ⟨legal, -⟩ := tree.legal_of_consistent turn.begun turn.consistent
  have hactive := tree.source_of_mem_select legal turn.mem_selected
  have hroot := ChartSpec.source_ne_root built turn.mem_selected
  have targets := turn.targets_earlier tree
  refine ⟨?_, fun ⟨hstays, hreturns⟩ => ?_, fun hs => ?_, fun hs => ?_⟩
  · rw [turn.active_eq, tree.mem_foldl_advance legal targets]
    simp [hactive]
  · exact tree.not_stays_of_returns legal targets hroot hactive hreturns hstays
  · simp [take, hs]
  · exact performs_of_mem trigger hs

end Chart

/-- Two regions answer one event: the first winds both back to their start, the second goes on. -/
def rewind : ChartSpec Unit Signal where
  name := "rewind"
  context := ()
  initial := some "work"
  states := [
    { key := "work"
      shape := .parallel
      states := [
        { key := "left"
          shape := .compound
          initial := some "idle"
          states := [
            { key := "idle"
              shape := .atomic
              on := [("GO", { target := some "#rewind.work" })] }] },
        { key := "right"
          shape := .compound
          initial := some "waiting"
          states := [
            { key := "waiting"
              shape := .atomic
              entry := [.run "wait"]
              exit := [.run "leave"]
              on := [("GO", { target := some "done" })] },
            { key := "done", shape := .atomic, entry := [.run "finish"] }] }] }]

theorem rewind_built : rewind.build = .ok rewind.chart := by
  refine ChartSpec.build_eq_ok_iff.mpr ⟨?_, rfl⟩
  exact List.isEmpty_iff.mp (by decide +kernel)

def windBack : NodeId × Candidate Unit Signal := (3, ⟨1, none, false, []⟩)

def goOn : NodeId × Candidate Unit Signal := (5, ⟨6, none, false, []⟩)

def woundBack : Progress Unit :=
  rewind.chart.take (.event .go) ⟨rewind.chart.defaults Chart.root, (), []⟩ windBack

theorem rewind_comes_to_goOn :
    rewind.chart.ComesTo rewind.chart.initial (.event .go) (rewind.chart.defaults Chart.root)
      [windBack] goOn [] woundBack where
  consistent := by decide +kernel
  begun :=
    have tree := ChartSpec.isTree_of_build rewind_built
    tree.activeOf_settled tree.settled_initial
  selected := rfl
  progress := rfl

theorem rewind_exits_waiting :
    ¬Chart.Stays 5 (rewind.chart.changes (rewind.chart.defaults Chart.root) [windBack]) :=
  fun hstays => hstays ⟨_, _⟩ List.mem_cons_self (by decide +kernel)

/-- The source of the second transition is active when its turn comes, because it came back. -/
theorem rewind_returns_waiting : 5 ∈ woundBack.active ∧
    Chart.Returns 5 (rewind.chart.changes (rewind.chart.defaults Chart.root) [windBack]) := by
  have hactive : 5 ∈ woundBack.active := by decide +kernel
  have htaken := (Chart.taken_iff_stays_or_returns rewind_built rewind_comes_to_goOn).1.mp hactive
  exact ⟨hactive, htaken.resolve_left rewind_exits_waiting⟩

/-- The right region goes on from a state that the left one has exited and entered again. -/
theorem rewind_takes_returned : rewind.build = .ok rewind.chart ∧
    ∃ s trigger active earlier t later p,
      rewind.chart.ComesTo s trigger active earlier t later p ∧ t.1 ∈ p.active ∧
        ¬Chart.Stays t.1 (rewind.chart.changes active earlier) ∧
        (rewind.chart.step s trigger active).fired =
          [.run "leave", .run "wait", .run "leave", .run "finish"] ∧
        (rewind.chart.step s trigger active).configuration.leaves =
          [⟨"work.left.idle"⟩, ⟨"work.right.done"⟩] := by
  exact ⟨rewind_built, _, _, _, _, _, _, _, rewind_comes_to_goOn, by decide +kernel,
    rewind_exits_waiting, by decide +kernel, by decide +kernel⟩

end Statechart
