import Statechart.Proofs.Advance
import Statechart.Proofs.Built

/-! Runs of a chart, from its initial state or at rest in a named one, under any triggers. Every
state on the way stands for a legal set of active nodes, so no step is ever refused. -/
namespace Statechart

variable {C E : Type}

namespace Chart

variable {m : Chart C E}

/-- The configuration is that of a legal set. -/
def Settled (m : Chart C E) (active : List NodeId) (c : Configuration) : Prop :=
  m.Legal active ∧ m.Arranged active ∧ c = m.configurationOf active

theorem IsTree.activeOf_settled (tree : m.IsTree) {active : List NodeId} {c : Configuration}
    (h : m.Settled active c) : m.activeOf c = .ok active := by
  rw [h.2.2]
  exact tree.activeOf_configurationOf h.1 h.2.1

variable [Event E]

inductive Run (m : Chart C E) : Snapshot C → Prop where
  | initial : Run m m.initial
  | resting {path : Path} {s : Snapshot C} : m.restingAt path = .ok s → Run m s
  | step {s s' : Snapshot C} (trigger : Trigger E) :
      Run m s → m.transition s trigger = .ok s' → Run m s'

/-- What the selected transitions of a step have done when the last of them is taken. -/
def applied (m : Chart C E) (s : Snapshot C) (trigger : Trigger E) (active : List NodeId) :
    Progress C :=
  (m.select ⟨s.context, trigger, s.configuration⟩ active).1.foldl (m.take trigger)
    ⟨active, s.context, []⟩

namespace IsTree

variable (tree : m.IsTree)
include tree

theorem settled_initial : m.Settled (m.defaults root) m.initial.configuration :=
  ⟨tree.legal_defaults_root, arranged_filter m _, rfl⟩

omit [Event E] in
theorem legal_resting {target : NodeId} (htarget : target ∈ m.ids) (hne : target ≠ root) :
    m.Legal (m.ids.filter fun i => i == root || (m.entrySet root target).contains i) := by
  have legal := tree.legal_defaults_root
  have fills := tree.entrySet_fills (tree.root_mem_ancestors htarget hne) tree.isCompound_root
  refine tree.legal_fill fills (fun i => ?_) legal legal.rooted tree.isCompound_root
  have hids : i = root ∨ i ∈ m.entrySet root target → i ∈ m.ids := by
    rintro (rfl | hi)
    · exact tree.root_mem_ids
    · exact mem_ids_of_spread hi
  rw [tree.outside_root_iff legal, List.mem_filter]
  simpa using hids

theorem settled_restingAt {path : Path} {s : Snapshot C} (h : m.restingAt path = .ok s) :
    ∃ active, m.Settled active s.configuration := by
  unfold restingAt at h
  obtain ⟨target, htarget, h⟩ := Except.bind_eq_ok.mp h
  obtain rfl := Except.ok.inj h
  refine ⟨_, ?_, ?_, rfl⟩
  · split
    · exact tree.legal_defaults_root
    · rename_i hne
      obtain ⟨n, hn, -⟩ := tree.lookup_eq_ok_iff.mp htarget
      exact tree.legal_resting (mem_ids.mpr ⟨n, hn⟩) hne
  · split
    · exact arranged_filter m _
    · exact arranged_filter m _

theorem settled_applied {s : Snapshot C} {active : List NodeId}
    (h : m.Settled active s.configuration) (trigger : Trigger E) :
    m.Legal (m.applied s trigger active).active ∧
      m.Arranged (m.applied s trigger active).active := by
  rw [applied, foldl_take_active]
  exact tree.legal_foldl_advance h.1 h.2.1 fun _ hs => tree.target_of_mem_select hs

theorem transition_settled {s : Snapshot C} {active : List NodeId}
    (h : m.Settled active s.configuration) (trigger : Trigger E) :
    m.transition s trigger = .ok (m.step s trigger active) := by
  unfold transition
  rw [tree.activeOf_settled h]
  exact if_pos ((tree.isLegal_iff h.1.nodes).mpr h.1)

omit tree in
theorem step_configuration {s : Snapshot C} {active : List NodeId}
    (h : m.Settled active s.configuration) (trigger : Trigger E) :
    (m.step s trigger active).configuration =
      m.configurationOf (m.applied s trigger active).active := by
  unfold step
  dsimp only
  split
  · rename_i hnil
    have happlied : (m.applied s trigger active).active = active := by
      rw [applied, List.isEmpty_iff.mp hnil]
      rfl
    rw [happlied]
    exact h.2.2
  · rfl

theorem settled_step {s : Snapshot C} {active : List NodeId}
    (h : m.Settled active s.configuration) (trigger : Trigger E) :
    m.Settled (m.applied s trigger active).active (m.step s trigger active).configuration := by
  obtain ⟨legal, arranged⟩ := tree.settled_applied h trigger
  exact ⟨legal, arranged, step_configuration h trigger⟩

theorem settled_run {s : Snapshot C} (run : m.Run s) :
    ∃ active, m.Settled active s.configuration := by
  induction run with
  | initial => exact ⟨_, tree.settled_initial⟩
  | resting h => exact tree.settled_restingAt h
  | step trigger _ h ih =>
    obtain ⟨active, settled⟩ := ih
    rw [tree.transition_settled settled] at h
    obtain rfl := Except.ok.inj h
    exact ⟨_, tree.settled_step settled trigger⟩

end IsTree

theorem step_of_applied {s : Snapshot C} {trigger : Trigger E} {active active' : List NodeId}
    {context : C} {fired : List Fired} {faults : List GuardFault}
    (hsome : (m.select ⟨s.context, trigger, s.configuration⟩ active).1.isEmpty = false)
    (hfaults : (m.select ⟨s.context, trigger, s.configuration⟩ active).2 = faults)
    (happlied : m.applied s trigger active = ⟨active', context, fired⟩) :
    m.step s trigger active =
      ⟨m.configurationOf active', context, fired, true, faults, trigger.text⟩ := by
  rw [applied] at happlied
  simp [step, hsome, hfaults, happlied]

theorem step_of_no_source {s : Snapshot C} {trigger : Trigger E} {active : List NodeId}
    (h : m.sources trigger active = []) :
    m.step s trigger active =
      { s with fired := [], changed := false, faults := [], trigger := trigger.text } := by
  simp [step, select, h]

theorem step_of_source {s : Snapshot C} {trigger : Trigger E} {active : List NodeId} {id : NodeId}
    {c : Candidate C E} {faults : List GuardFault} {active' : List NodeId} {context : C}
    {fired : List Fired} (hsource : m.sources trigger active = [id])
    (hchosen : m.chooseAt ⟨s.context, trigger, s.configuration⟩ id = (some c, faults))
    (htaken : m.take trigger ⟨active, s.context, []⟩ (id, c) = ⟨active', context, fired⟩) :
    m.step s trigger active =
      ⟨m.configurationOf active', context, fired, true, faults, trigger.text⟩ := by
  simp [step, select, hsource, hchosen, htaken]

namespace IsTree

variable (tree : m.IsTree)
include tree

theorem mem_of_source? {active : List NodeId} (legal : m.Legal active) {trigger : Trigger E}
    {leaf id : NodeId} (hl : leaf ∈ active) (h : m.source? trigger leaf = some id) :
    id ∈ active := by
  rcases List.mem_cons.mp (List.mem_of_find?_eq_some h) with rfl | hid
  · exact hl
  · exact tree.mem_of_ancestors legal hl hid

theorem source_of_mem_select {active : List NodeId} (legal : m.Legal active)
    {view : GuardView C E} {t : NodeId × Candidate C E} (h : t ∈ (m.select view active).1) :
    t.1 ∈ active := by
  obtain ⟨id, hid, hchosen⟩ := List.mem_filterMap.mp h
  obtain ⟨c, -, rfl⟩ := Option.map_eq_some_iff.mp hchosen
  obtain ⟨leaf, hleaf, hsource⟩ := List.mem_filterMap.mp (List.mem_eraseDups.mp hid)
  exact tree.mem_of_source? legal (List.mem_filter.mp hleaf).1 hsource

theorem sources_eq_nil {active : List NodeId} (legal : m.Legal active) {trigger : Trigger E}
    (h : ∀ i ∈ active, ∀ n, m.node? i = some n → n.declared trigger = []) :
    m.sources trigger active = [] := by
  have hnone : (active.filter m.isAtomic).filterMap (m.source? trigger) = [] := by
    refine List.filterMap_eq_nil_iff.mpr fun leaf hleaf => ?_
    cases hs : m.source? trigger leaf with
    | none => rfl
    | some id =>
      have hid := tree.mem_of_source? legal (List.mem_filter.mp hleaf).1 hs
      have hdecl := List.find?_some hs
      cases hn : m.node? id with
      | none => simp [hn] at hdecl
      | some n => simp [hn, h id hid n hn] at hdecl
  rw [sources, hnone]
  rfl

end IsTree

/-- Every snapshot on a run of a built chart lists the leaves of a legal set of active nodes, and
every further step succeeds with a set that passes the check of legality. -/
theorem run_keeps_legal {spec : ChartSpec C E} (built : spec.build = .ok m) {s : Snapshot C}
    (run : m.Run s) :
    ∃ active, m.activeOf s.configuration = .ok active ∧ m.Legal active ∧
      (∀ p, p ∈ s.configuration.leaves ↔
        ∃ i ∈ active, ∃ n, m.node? i = some n ∧ n.isAtomic = true ∧ n.path = p) ∧
      ∀ trigger, m.transition s trigger = .ok (m.step s trigger active) ∧
        (m.step s trigger active).configuration =
          m.configurationOf (m.applied s trigger active).active ∧
        m.isLegal (m.applied s trigger active).active = true := by
  have tree := ChartSpec.isTree_of_build built
  obtain ⟨active, settled⟩ := tree.settled_run run
  refine ⟨active, tree.activeOf_settled settled, settled.1, fun p => ?_, fun trigger => ?_⟩
  · rw [settled.2.2]
    exact mem_configurationOf
  · have legal := (tree.settled_applied settled trigger).1
    exact ⟨tree.transition_settled settled trigger, IsTree.step_configuration settled trigger,
      (tree.isLegal_iff legal.nodes).mpr legal⟩

end Chart

inductive Signal where
  | start
  | go
deriving DecidableEq, Repr

def Signal.typeName : Signal → String
  | .start => "START"
  | .go => "GO"

instance : Event Signal := ⟨Signal.typeName⟩

/-- Two regions answer one event: the first starts a delay, the second leaves them both. -/
def relay : ChartSpec Unit Signal where
  name := "relay"
  context := ()
  initial := some "work"
  states := [
    { key := "work"
      shape := .parallel
      states := [
        { key := "left"
          shape := .compound
          initial := some "idle"
          states := [
            { key := "idle"
              shape := .atomic
              on := [("START", { target := some "busy" }), ("GO", { target := some "busy" })] },
            { key := "busy"
              shape := .atomic
              after := [({ Duration.zero with secs := 1 }, { target := some "idle" })] }] },
        { key := "right"
          shape := .compound
          initial := some "waiting"
          states := [
            { key := "waiting"
              shape := .atomic
              on := [("GO", { target := some "#relay.rest" })] }] }] },
    { key := "rest", shape := .atomic }]

theorem relay_built : relay.build = .ok relay.chart := by
  refine ChartSpec.build_eq_ok_iff.mpr ⟨?_, rfl⟩
  exact List.isEmpty_iff.mp (by decide +kernel)

def relayed : Snapshot Unit :=
  relay.chart.step relay.chart.initial (.event .go) (relay.chart.defaults Chart.root)

theorem relay_goes : relay.chart.transition relay.chart.initial (.event .go) = .ok relayed :=
  have tree := ChartSpec.isTree_of_build relay_built
  tree.transition_settled tree.settled_initial (.event .go)

theorem relayed_legal : relayed.configuration.leaves = [⟨"rest"⟩] ∧
    ∃ active, relay.chart.activeOf relayed.configuration = .ok active ∧
      relay.chart.Legal active := by
  have run : relay.chart.Run relayed := .step (.event .go) .initial relay_goes
  obtain ⟨active, hactive, legal, -, -⟩ := Chart.run_keeps_legal relay_built run
  exact ⟨by decide +kernel, active, hactive, legal⟩

end Statechart
