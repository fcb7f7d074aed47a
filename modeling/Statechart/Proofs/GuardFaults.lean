import Statechart.Proofs.Domain
import Statechart.Proofs.Targets

/-! Guards that give no answer. A step takes such a guard to say no, so it goes on as if the guard
had said so, and reports each failure that it has met: at every source once, those of the candidates
up to the one it selects. -/
namespace Statechart

variable {C E : Type}

/-- The verdict, with a no in the place of a failure. -/
def Verdict.lenient : Verdict → Verdict
  | .holds => .holds
  | _ => .fails

def Guard.lenient (g : Guard C E) : Guard C E := ⟨fun view => (g.judge view).lenient⟩

namespace Candidate

def mapGuard (f : Guard C E → Guard C E) (c : Candidate C E) : Candidate C E :=
  { c with guard := c.guard.map f }

def holds (view : GuardView C E) (c : Candidate C E) : Bool :=
  match c.enabled view with
  | .ok b => b
  | .error _ => false

def failure? (view : GuardView C E) (c : Candidate C E) : Option GuardError :=
  match c.enabled view with
  | .ok _ => none
  | .error e => some e

theorem enabled_lenient (view : GuardView C E) (c : Candidate C E) :
    (c.mapGuard .lenient).enabled view = .ok (c.holds view) := by
  unfold enabled mapGuard holds enabled
  cases c.guard with
  | none => rfl
  | some g =>
    simp only [Option.map_some, Guard.check, Guard.lenient]
    cases g.judge view with
    | crashed message => cases message <;> rfl
    | _ => rfl

end Candidate

theorem Candidate.holds_lenient (view : GuardView C E) (c : Candidate C E) :
    (c.mapGuard .lenient).holds view = c.holds view := by
  rw [holds, enabled_lenient]

theorem Candidate.failure?_lenient (view : GuardView C E) (c : Candidate C E) :
    (c.mapGuard .lenient).failure? view = none := by
  rw [failure?, enabled_lenient]

def Delayed.mapGuard (f : Guard C E → Guard C E) (d : Delayed C E) : Delayed C E :=
  { d with candidate := d.candidate.mapGuard f }

def Node.mapGuards (f : Guard C E → Guard C E) (n : Node C E) : Node C E :=
  { n with
    on := n.on.map fun (event, c) => (event, c.mapGuard f)
    after := n.after.map (·.mapGuard f) }

theorem Node.declared_mapGuards [Event E] (f : Guard C E → Guard C E) (n : Node C E)
    (trigger : Trigger E) :
    (n.mapGuards f).declared trigger = (n.declared trigger).map (·.mapGuard f) := by
  cases trigger with
  | init => rfl
  | event e => simp [declared, candidates, mapGuards, List.filter_map, Function.comp_def]
  | after state =>
    by_cases h : state = n.path
    · cases ha : n.after <;> simp [declared, mapGuards, Delayed.mapGuard, h, ha]
    · simp [declared, mapGuards, h]

namespace Chart

variable {m : Chart C E}

def mapGuards (f : Guard C E → Guard C E) (m : Chart C E) : Chart C E :=
  { m with nodes := m.nodes.map (·.mapGuards f) }

/-- The chart with guards that never fail: where one of the chart's fails, its own says no. -/
def lenient (m : Chart C E) : Chart C E := m.mapGuards .lenient

section

variable (f : Guard C E → Guard C E)

@[simp] theorem node?_mapGuards (i : NodeId) :
    (m.mapGuards f).node? i = (m.node? i).map (·.mapGuards f) := by
  simp [node?, mapGuards]

@[simp] theorem ids_mapGuards : (m.mapGuards f).ids = m.ids := by
  simp [ids, mapGuards]

@[simp] theorem ancestors_mapGuards : (m.mapGuards f).ancestors = m.ancestors := by
  funext i
  simp only [ancestors, node?_mapGuards]
  cases m.node? i <;> rfl

@[simp] theorem children_mapGuards : (m.mapGuards f).children = m.children := by
  funext i
  simp only [children, node?_mapGuards]
  cases m.node? i <;> rfl

@[simp] theorem kind?_mapGuards : (m.mapGuards f).kind? = m.kind? := by
  funext i
  simp only [kind?, node?_mapGuards]
  cases m.node? i <;> rfl

theorem any_mapGuards {p : Node C E → Bool} (h : ∀ n, p (n.mapGuards f) = p n) (i : NodeId) :
    ((m.mapGuards f).node? i).any p = (m.node? i).any p := by
  rw [node?_mapGuards]
  cases m.node? i with
  | none => rfl
  | some n => exact h n

@[simp] theorem isAtomic_mapGuards : (m.mapGuards f).isAtomic = m.isAtomic :=
  funext (any_mapGuards f fun _ => rfl)

@[simp] theorem isParallel_mapGuards : (m.mapGuards f).isParallel = m.isParallel :=
  funext (any_mapGuards f fun _ => rfl)

@[simp] theorem isCompound_mapGuards : (m.mapGuards f).isCompound = m.isCompound :=
  funext (any_mapGuards f fun _ => rfl)

@[simp] theorem isAncestor_mapGuards : (m.mapGuards f).isAncestor = m.isAncestor := by
  funext a i
  simp [isAncestor]

@[simp] theorem isDefaultChild_mapGuards : (m.mapGuards f).isDefaultChild = m.isDefaultChild := by
  funext i c
  simp [isDefaultChild]

@[simp] theorem lookup_mapGuards : (m.mapGuards f).lookup = m.lookup := by
  funext p
  have hfind : (m.mapGuards f).find? p = (m.find? p).map (·.mapGuards f) := by
    simp only [find?, mapGuards, Array.find?_map]
    rfl
  simp only [lookup, hfind]
  cases m.find? p <;> rfl

theorem activeOf_mapGuards : (m.mapGuards f).activeOf = m.activeOf := by
  funext c
  simp [activeOf]

theorem isLegal_mapGuards : (m.mapGuards f).isLegal = m.isLegal := by
  funext active
  simp [isLegal, parent, childrenLegal]

theorem configurationOf_mapGuards : (m.mapGuards f).configurationOf = m.configurationOf := by
  funext active
  have hnodes : active.filterMap (m.mapGuards f).node? =
      (active.filterMap m.node?).map (·.mapGuards f) := by
    rw [List.map_filterMap]
    exact List.filterMap_congr fun i _ => node?_mapGuards f i
  simp only [configurationOf, hnodes, List.filter_map, List.map_map]
  rfl

theorem domain_mapGuards : (m.mapGuards f).domain = m.domain := by
  funext source target internal
  simp [domain]

theorem entrySet_mapGuards : (m.mapGuards f).entrySet = m.entrySet := by
  funext domain target
  simp [entrySet, lineage]

theorem enter_mapGuards (trigger : Trigger E) : (m.mapGuards f).enter trigger = m.enter trigger := by
  funext p i
  simp only [enter, node?_mapGuards]
  cases m.node? i with
  | none => rfl
  | some n => cases h : n.after <;> simp [Node.mapGuards, Delayed.mapGuard, h]

theorem exit_mapGuards (trigger : Trigger E) : (m.mapGuards f).exit trigger = m.exit trigger := by
  funext p i
  simp only [exit, node?_mapGuards]
  cases m.node? i with
  | none => rfl
  | some n => simp [Node.mapGuards]

theorem take_mapGuards (trigger : Trigger E) (p : Progress C) (t : NodeId × Candidate C E) :
    (m.mapGuards f).take trigger p (t.1, t.2.mapGuard f) = m.take trigger p t := by
  simp only [take, Candidate.mapGuard, domain_mapGuards, entrySet_mapGuards, enter_mapGuards,
    exit_mapGuards, isAncestor_mapGuards, ids_mapGuards]

end

variable [Event E]

/-- What a node declares for a trigger. -/
def declaredAt (m : Chart C E) (trigger : Trigger E) (id : NodeId) : List (Candidate C E) :=
  match m.node? id with
  | none => []
  | some n => n.declared trigger

/-- The failures met at a node: one for each failing candidate before the first that holds. -/
def faultsMet (m : Chart C E) (view : GuardView C E) (id : NodeId) : List GuardFault :=
  (((m.declaredAt view.trigger id).takeWhile (!·.holds view)).filterMap (·.failure? view)).map
    fun error => ⟨m.pathAt id, view.trigger.text, error⟩

/-- Of the nodes at and above a leaf that declare the trigger, the innermost one. -/
structure Answers (m : Chart C E) (trigger : Trigger E) (leaf id : NodeId) : Prop where
  declares : m.declaredAt trigger id ≠ []
  above : id = leaf ∨ id ∈ m.ancestors leaf
  innermost : ∀ j, m.declaredAt trigger j ≠ [] → j = leaf ∨ j ∈ m.ancestors leaf →
    j = id ∨ j ∈ m.ancestors id

/-- The nodes that answer for the active leaves, each once, in the order of their first leaf. -/
structure Sources (m : Chart C E) (trigger : Trigger E) (active sources : List NodeId) : Prop where
  nodup : sources.Nodup
  mem : ∀ id, id ∈ sources ↔
    ∃ leaf ∈ active, m.isAtomic leaf = true ∧ m.Answers trigger leaf id
  ordered : sources.Pairwise fun a b => ∀ leaf ∈ active, m.isAtomic leaf = true →
    m.Answers trigger leaf b →
      ∃ first ∈ active, m.isAtomic first = true ∧ m.Answers trigger first a ∧ first < leaf

theorem choose_eq (view : GuardView C E) (source : Path) (candidates : List (Candidate C E)) :
    choose view source candidates =
      (candidates.find? (·.holds view),
        ((candidates.takeWhile (!·.holds view)).filterMap (·.failure? view)).map
          fun error => ⟨source, view.trigger.text, error⟩) := by
  induction candidates with
  | nil => rfl
  | cons c rest ih =>
    unfold choose
    cases h : c.enabled view with
    | ok b =>
      cases b with
      | true => simp [Candidate.holds, h]
      | false => simp [Candidate.holds, Candidate.failure?, h, ih]
    | error e => simp [Candidate.holds, Candidate.failure?, h, ih]

theorem chooseAt_eq (view : GuardView C E) (id : NodeId) :
    m.chooseAt view id =
      ((m.declaredAt view.trigger id).find? (·.holds view), m.faultsMet view id) := by
  unfold chooseAt faultsMet declaredAt
  cases h : m.node? id with
  | none => rfl
  | some n =>
    rw [pathAt_eq h]
    exact choose_eq view n.path _

theorem select_eq (view : GuardView C E) (active : List NodeId) :
    m.select view active =
      ((m.sources view.trigger active).filterMap fun id =>
          ((m.declaredAt view.trigger id).find? (·.holds view)).map (id, ·),
        (m.sources view.trigger active).flatMap (m.faultsMet view)) := by
  simp only [select, chooseAt_eq]

omit [Event E] in
theorem eraseDups_concat (l : List NodeId) (id : NodeId) :
    (l ++ [id]).eraseDups = if id ∈ l then l.eraseDups else l.eraseDups ++ [id] := by
  rw [List.eraseDups_append]
  split
  · simp [List.removeAll, *]
  · simp [List.removeAll, List.eraseDups_cons, *]

omit [Event E] in
/-- The values at an ascending list come in the order of the first numbers that they belong to. -/
theorem eraseDups_filterMap {f : NodeId → Option NodeId} {l : List NodeId}
    (ascending : l.Pairwise (· < ·)) :
    (l.filterMap f).eraseDups.Nodup ∧ (l.filterMap f).eraseDups.Pairwise fun a b =>
      ∀ i ∈ l, f i = some b → ∃ j ∈ l, f j = some a ∧ j < i := by
  -- from the end, where a number adds its value only if no earlier one has it
  induction l using List.reverseRecOn with
  | nil => simp
  | append_singleton l last ih =>
    rw [List.pairwise_append] at ascending
    obtain ⟨hnodup, hpairs⟩ := ih ascending.1
    have hlast : ∀ j ∈ l, j < last := fun j hj => ascending.2.2 j hj last (List.mem_singleton_self _)
    -- a value that was there before the last number keeps its first one
    have hold : (l.filterMap f).eraseDups.Pairwise fun a b =>
        ∀ i ∈ l ++ [last], f i = some b → ∃ j ∈ l ++ [last], f j = some a ∧ j < i := by
      refine hpairs.imp_of_mem fun {a b} ha hb hab i hi hib => ?_
      rcases List.mem_append.mp hi with hi | hi
      · obtain ⟨j, hj, hja, hlt⟩ := hab i hi hib
        exact ⟨j, List.mem_append_left _ hj, hja, hlt⟩
      · obtain ⟨j, hj, hja⟩ := List.mem_filterMap.mp (List.mem_eraseDups.mp ha)
        exact ⟨j, List.mem_append_left _ hj, hja, List.mem_singleton.mp hi ▸ hlast j hj⟩
    cases hf : f last with
    | none =>
      rw [List.filterMap_append, List.filterMap_cons_none hf, List.filterMap_nil, List.append_nil]
      exact ⟨hnodup, hold⟩
    | some c =>
      rw [List.filterMap_append, List.filterMap_cons_some hf, List.filterMap_nil, eraseDups_concat]
      split
      · exact ⟨hnodup, hold⟩
      · rename_i hnew
        have hfresh : ∀ a ∈ (l.filterMap f).eraseDups, a ≠ c := fun a ha hac =>
          hnew (hac ▸ List.mem_eraseDups.mp ha)
        constructor
        · rw [List.nodup_append]
          exact ⟨hnodup, List.pairwise_singleton _ c, fun a ha b hb =>
            List.mem_singleton.mp hb ▸ hfresh a ha⟩
        · rw [List.pairwise_append]
          refine ⟨hold, List.pairwise_singleton _ _, fun a ha b hb i hi hib => ?_⟩
          obtain rfl := List.mem_singleton.mp hb
          obtain ⟨j, hj, hja⟩ := List.mem_filterMap.mp (List.mem_eraseDups.mp ha)
          rcases List.mem_append.mp hi with hi | hi
          · exact absurd (List.mem_filterMap.mpr ⟨i, hi, hib⟩) hnew
          · exact ⟨j, List.mem_append_left _ hj, hja, List.mem_singleton.mp hi ▸ hlast j hj⟩

theorem declares_iff {trigger : Trigger E} {id : NodeId} :
    ((m.node? id).any fun n => !(n.declared trigger).isEmpty) = true ↔
      m.declaredAt trigger id ≠ [] := by
  unfold declaredAt
  cases m.node? id <;> simp

variable (tree : m.IsTree)
include tree

theorem IsTree.answers_of_source? {trigger : Trigger E} {leaf id : NodeId}
    (h : m.source? trigger leaf = some id) : m.Answers trigger leaf id := by
  obtain ⟨hdecl, before, after, hlist, hbefore⟩ := List.find?_eq_some_iff_append.mp h
  refine ⟨declares_iff.mp hdecl, List.mem_cons.mp (List.mem_of_find?_eq_some h),
    fun j hj habove => ?_⟩
  rw [← List.mem_cons, hlist] at habove
  rcases List.mem_append.mp habove with hbelow | habove
  · exact absurd (declares_iff.mpr hj) (by simpa using hbefore j hbelow)
  · rwa [tree.ancestors_after hlist, List.mem_cons] at habove

theorem IsTree.source?_eq_some_iff {trigger : Trigger E} {leaf id : NodeId} :
    m.source? trigger leaf = some id ↔ m.Answers trigger leaf id := by
  refine ⟨tree.answers_of_source?, fun answers => ?_⟩
  have hsome : (m.source? trigger leaf).isSome = true :=
    List.find?_isSome.mpr ⟨id, List.mem_cons.mpr answers.above, declares_iff.mpr answers.declares⟩
  obtain ⟨first, hfirst⟩ := Option.isSome_iff_exists.mp hsome
  have answers' := tree.answers_of_source? hfirst
  rw [hfirst]
  -- each of the two is at or above the other
  rcases answers.innermost first answers'.declares answers'.above with rfl | habove
  · rfl
  · rcases answers'.innermost id answers.declares answers.above with rfl | habove'
    · rfl
    · exact absurd habove' (tree.not_mem_ancestors_of_mem habove)

theorem IsTree.sources_of {active : List NodeId} (arranged : m.Arranged active)
    (trigger : Trigger E) : m.Sources trigger active (m.sources trigger active) := by
  have ascending : (active.filter m.isAtomic).Pairwise (· < ·) :=
    (arranged ▸ pairwise_filter_ids m active.contains).filter _
  obtain ⟨nodup, ordered⟩ := eraseDups_filterMap (f := m.source? trigger) ascending
  refine ⟨nodup, fun id => ?_, ordered.imp fun {a b} h leaf hleaf hatomic answers => ?_⟩
  · simp only [sources, List.mem_eraseDups, List.mem_filterMap, List.mem_filter, and_assoc,
      tree.source?_eq_some_iff]
  · obtain ⟨first, hfirst, hsource, hlt⟩ := h leaf (List.mem_filter.mpr ⟨hleaf, hatomic⟩)
      (tree.source?_eq_some_iff.mpr answers)
    obtain ⟨hfirst, hatomic⟩ := List.mem_filter.mp hfirst
    exact ⟨first, hfirst, hatomic, tree.source?_eq_some_iff.mp hsource, hlt⟩

end Chart

theorem Guard.check_waiting (state : Path) (g : Option (Guard C E)) (view : GuardView C E) :
    (waiting state g).check view =
      if view.inState state then g.elim (.ok true) (·.check view) else .ok false := by
  cases g with
  | none =>
    rw [waiting, check_inState]
    cases view.inState state <;> rfl
  | some g => exact check_within state g view

namespace Chart

variable {m : Chart C E} [Event E]

theorem declaredAt_lenient (trigger : Trigger E) (id : NodeId) :
    m.lenient.declaredAt trigger id = (m.declaredAt trigger id).map (·.mapGuard .lenient) := by
  simp only [declaredAt, lenient, node?_mapGuards]
  cases m.node? id with
  | none => rfl
  | some n => exact n.declared_mapGuards _ trigger

theorem sources_lenient (trigger : Trigger E) (active : List NodeId) :
    m.lenient.sources trigger active = m.sources trigger active := by
  have hsource : m.lenient.source? trigger = m.source? trigger := by
    funext leaf
    simp only [source?, lenient, ancestors_mapGuards]
    refine congrArg (List.find? · _) (funext (any_mapGuards _ fun n => ?_))
    rw [Node.declared_mapGuards, List.isEmpty_map]
  have hatomic : m.lenient.isAtomic = m.isAtomic := isAtomic_mapGuards _
  simp only [sources, hsource, hatomic]

theorem faultsMet_lenient (view : GuardView C E) (id : NodeId) :
    m.lenient.faultsMet view id = [] := by
  rw [faultsMet, List.map_eq_nil_iff, List.filterMap_eq_nil_iff]
  intro c hc
  rw [declaredAt_lenient] at hc
  obtain ⟨c, -, rfl⟩ := List.mem_map.mp (List.takeWhile_subset _ hc)
  exact c.failure?_lenient view

theorem select_lenient (view : GuardView C E) (active : List NodeId) :
    m.lenient.select view active =
      ((m.select view active).1.map fun t => (t.1, t.2.mapGuard .lenient), []) := by
  have hfind : ∀ id, (m.lenient.declaredAt view.trigger id).find? (·.holds view) =
      ((m.declaredAt view.trigger id).find? (·.holds view)).map (·.mapGuard .lenient) := by
    intro id
    rw [declaredAt_lenient, List.find?_map]
    simp only [Function.comp_def, Candidate.holds_lenient]
  simp only [select_eq, sources_lenient, hfind, List.map_filterMap, Option.map_map]
  rw [List.flatMap_eq_nil_iff.mpr fun id _ => faultsMet_lenient view id]
  rfl

/-- With no in the place of each failure, a step does the same and has nothing to report. -/
theorem step_lenient (s : Snapshot C) (trigger : Trigger E) (active : List NodeId) :
    m.lenient.step s trigger active = { m.step s trigger active with faults := [] } := by
  have htake : ∀ (selected : List (NodeId × Candidate C E)) (p : Progress C),
      (selected.map fun t => (t.1, t.2.mapGuard .lenient)).foldl (m.lenient.take trigger) p =
        selected.foldl (m.take trigger) p := by
    intro selected p
    simp only [List.foldl_map, lenient, take_mapGuards]
  simp only [step, select_lenient, List.isEmpty_map, htake]
  split
  · rfl
  · simp only [lenient, configurationOf_mapGuards]

theorem transition_lenient (s : Snapshot C) (trigger : Trigger E) :
    m.lenient.transition s trigger =
      (m.transition s trigger).map fun next => { next with faults := [] } := by
  have hactive : m.lenient.activeOf = m.activeOf := activeOf_mapGuards _
  have hlegal : m.lenient.isLegal = m.isLegal := isLegal_mapGuards _
  unfold transition
  rw [hactive, hlegal]
  cases m.activeOf s.configuration with
  | error e => rfl
  | ok active =>
    simp only [bind, Except.bind, step_lenient]
    split <;> rfl

theorem step_faults (s : Snapshot C) (trigger : Trigger E) (active : List NodeId) :
    (m.step s trigger active).faults =
      (m.sources trigger active).flatMap (m.faultsMet ⟨s.context, trigger, s.configuration⟩) := by
  simp only [step, select_eq]
  split <;> rfl

/-- Guards that fail change nothing but the faults of a step. From a consistent state a built chart
goes where the chart goes whose guards say no instead, and reports, source by source, the failing
candidates before the one selected, or all of them if none is. A guard that waits for a state is
asked only while the state is active. -/
theorem guard_failures_transparent {spec : ChartSpec C E} (built : spec.build = .ok m)
    {s : Snapshot C} (consistent : m.isConsistent s.configuration = true) (trigger : Trigger E) :
    ∃ active sources next, m.activeOf s.configuration = .ok active ∧
      m.transition s trigger = .ok next ∧
      m.lenient.transition s trigger = .ok { next with faults := [] } ∧
      m.Sources trigger active sources ∧
      (m.select ⟨s.context, trigger, s.configuration⟩ active).1 = sources.filterMap (fun id =>
        ((m.declaredAt trigger id).find? (·.holds ⟨s.context, trigger, s.configuration⟩)).map
          (id, ·)) ∧
      next.faults = sources.flatMap (m.faultsMet ⟨s.context, trigger, s.configuration⟩) ∧
      ∀ (t : TransitionSpec C E) source text raw c, t.inState = some raw →
        t.resolve spec.name spec.index source text = .ok c →
        ∃ j n, m.node? j = some n ∧
          (raw = n.path.text ∨ raw = "#" ++ spec.name ++ "." ++ n.path.text) ∧
          c.enabled ⟨s.context, trigger, s.configuration⟩ =
            if j ∈ active then
              t.guard.elim (.ok true) (·.check ⟨s.context, trigger, s.configuration⟩)
            else .ok false := by
  have tree := ChartSpec.isTree_of_build built
  obtain ⟨-, rfl⟩ := ChartSpec.build_eq_ok_iff.mp built
  obtain ⟨active, hactive⟩ := activeOf_of_consistent consistent
  have arranged := (tree.legal_of_consistent hactive consistent).2
  have hstep := transition_of_consistent hactive consistent trigger
  refine ⟨active, spec.chart.sources trigger active, _, hactive, hstep, ?_,
    tree.sources_of arranged trigger, ?_, step_faults s trigger active, ?_⟩
  · rw [transition_lenient, hstep]
    rfl
  · rw [select_eq]
  · intro t source text raw c hraw hc
    obtain ⟨-, -, -, hguard, -⟩ := TransitionSpec.resolve_eq_ok_iff.mp hc
    obtain ⟨j, hj, hwaiting⟩ := (TransitionSpec.resolveGuard_eq_ok_iff hraw).mp hguard
    obtain ⟨n, hn, hpath⟩ := (ChartSpec.index_eq_some_iff_node tree).mp hj
    refine ⟨j, n, hn, (tree.guardPath_eq_iff hn).mp hpath, ?_⟩
    have hstate := ((tree.text_tells hactive).guards ⟨s.context, trigger, s.configuration⟩ j n rfl
      hn).1
    rw [Guard.check_inState, Except.ok.injEq] at hstate
    rw [Candidate.enabled, hwaiting, hpath]
    simp only [Guard.check_waiting, hstate, List.contains_iff_mem]

end Chart

/-- Both sides of the watch leave the opening to it. Its first guard crashes, the second is not asked
before the gate is open, and without a guard it opens in the end. -/
def gate : ChartSpec Unit Signal where
  name := "gate"
  context := ()
  initial := some "watch"
  states := [
    { key := "watch"
      shape := .parallel
      on := [
        ("GO", { target := some "open", guard := some ⟨fun _ => .crashed (some "jammed")⟩ }),
        ("GO", {
          target := some "open"
          guard := some ⟨fun _ => .error ⟨"no key"⟩⟩
          inState := some "open" }),
        ("GO", { target := some "open" })]
      states := [{ key := "left", shape := .atomic }, { key := "right", shape := .atomic }] },
    { key := "open", shape := .atomic }]

theorem gate_built : gate.build = .ok gate.chart := by
  refine ChartSpec.build_eq_ok_iff.mpr ⟨?_, rfl⟩
  exact List.isEmpty_iff.mp (by decide +kernel)

theorem gate_jams_once : ∃ next, gate.chart.transition gate.chart.initial (.event .go) = .ok next ∧
    gate.chart.lenient.transition gate.chart.initial (.event .go) = .ok { next with faults := [] } ∧
    next.configuration.leaves = [⟨"open"⟩] ∧
    next.faults = [⟨⟨"watch"⟩, "GO", ⟨"guard panicked: jammed"⟩⟩] := by
  obtain ⟨-, -, next, -, hnext, hlenient, -⟩ := Chart.guard_failures_transparent gate_built
    (s := gate.chart.initial) (by decide +kernel) (.event .go)
  have hends : ((gate.chart.transition gate.chart.initial (.event .go)).toOption.map fun s =>
      (s.configuration.leaves, s.faults)) =
        some ([⟨"open"⟩], [⟨⟨"watch"⟩, "GO", ⟨"guard panicked: jammed"⟩⟩]) := by
    decide +kernel
  rw [hnext] at hends
  obtain ⟨hleaves, hfaults⟩ := Prod.mk.inj (Option.some.inj hends)
  exact ⟨next, hnext, hlenient, hleaves, hfaults⟩

end Statechart
