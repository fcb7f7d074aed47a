import Statechart.Proofs.Conduct

/-! Regions side by side. Selected transitions whose scopes do not lie one in another leave each other
alone: all of them are taken, each does below its scope what it would do by itself, what lies in no
scope stays as it is, and so the order in which they are taken does not matter. -/
namespace Statechart
namespace Chart

variable {C E : Type} {m : Chart C E}

/-- The scopes of the two transitions are different nodes, and neither lies above the other. -/
def Apart (m : Chart C E) (t u : NodeId × Candidate C E) : Prop :=
  m.scope t ≠ m.scope u ∧ m.scope t ∉ m.ancestors (m.scope u) ∧
    m.scope u ∉ m.ancestors (m.scope t)

instance (m : Chart C E) : DecidableRel m.Apart := fun _ _ => inferInstanceAs (Decidable (_ ∧ _))

theorem Apart.symm {t u : NodeId × Candidate C E} (h : m.Apart t u) : m.Apart u t :=
  ⟨h.1.symm, h.2.2, h.2.1⟩

theorem Arranged.ext {active active' : List NodeId} (arranged : m.Arranged active)
    (arranged' : m.Arranged active') (h : ∀ i, i ∈ active ↔ i ∈ active') : active = active' := by
  rw [← arranged, ← arranged']
  refine List.filter_congr fun i _ => ?_
  rw [Bool.eq_iff_iff, List.contains_eq_mem, List.contains_eq_mem, decide_eq_true_eq,
    decide_eq_true_eq, h]

/-- A transition does the same to a node in two sets that agree on the node and on the source. -/
theorem advance_agree {active active' : List NodeId} (legal : m.Legal active)
    (legal' : m.Legal active') {t : NodeId × Candidate C E} (hs : t.1 ∈ active)
    (hs' : t.1 ∈ active') {i : NodeId} (h : i ∈ active ↔ i ∈ active') :
    i ∈ m.advance active t ↔ i ∈ m.advance active' t := by
  rw [mem_advance_iff legal, mem_advance_iff legal', mem_exits, mem_enters, mem_exits, mem_enters]
  tauto

/-- Transitions that have active sources in a legal set, and scopes that lie apart. -/
structure SideBySide (m : Chart C E) (active : List NodeId)
    (ts : List (NodeId × Candidate C E)) : Prop where
  legal : m.Legal active
  arranged : m.Arranged active
  targets : ∀ t ∈ ts, t.2.target ∈ m.ids
  sources : ∀ t ∈ ts, t.1 ∈ active
  apart : ts.Pairwise m.Apart

theorem SideBySide.perm {active : List NodeId} {ts order : List (NodeId × Candidate C E)}
    (h : m.SideBySide active ts) (perm : order.Perm ts) : m.SideBySide active order where
  legal := h.legal
  arranged := h.arranged
  targets t ht := h.targets t (perm.mem_iff.mp ht)
  sources t ht := h.sources t (perm.mem_iff.mp ht)
  apart := (perm.pairwise_iff fun h => h.symm).mpr h.apart

namespace IsTree

variable (tree : m.IsTree)
include tree

theorem scope_at_or_above {t : NodeId × Candidate C E} (hs : t.1 ∈ m.ids) :
    m.scope t = t.1 ∨ m.scope t ∈ m.ancestors t.1 := by
  unfold scope
  split
  · exact .inl rfl
  · rcases domain_cases (m := m) t.1 t.2.target t.2.internal with ⟨h, -⟩ | ⟨h, -⟩ | h
    · exact .inl h
    · exact .inr h
    · rw [h]
      by_cases hroot : t.1 = root
      · exact .inl hroot.symm
      · exact .inr (tree.root_mem_ancestors hs hroot)

theorem not_mem_scope_of_apart {t u : NodeId × Candidate C E} (apart : m.Apart t u) {i : NodeId}
    (hi : m.scope u ∈ m.ancestors i) : m.scope t ∉ m.ancestors i := by
  intro ht
  rcases tree.ancestors_comparable ht hi with h | h | h
  · exact apart.1 h
  · exact apart.2.1 h
  · exact apart.2.2 h

theorem source_outside_of_apart {t u : NodeId × Candidate C E} (apart : m.Apart t u)
    (hs : u.1 ∈ m.ids) : m.scope t ∉ m.ancestors u.1 := by
  rcases tree.scope_at_or_above hs with h | h
  · exact h ▸ apart.2.1
  · exact tree.not_mem_scope_of_apart apart h

theorem mem_advance_outside {active : List NodeId} (legal : m.Legal active)
    {t : NodeId × Candidate C E} (htarget : t.2.target ∈ m.ids) {i : NodeId}
    (hi : m.scope t ∉ m.ancestors i) : i ∈ m.advance active t ↔ i ∈ active := by
  by_cases hroot : i = root
  · subst hroot
    exact iff_of_true (tree.legal_advance legal htarget).rooted legal.rooted
  · have hentered : i ∉ m.enters active t := mt (tree.scope_above_enters legal htarget hroot) hi
    rw [mem_advance_iff legal, mem_exits]
    tauto

theorem mem_foldl_outside {active : List NodeId} (legal : m.Legal active)
    {ts : List (NodeId × Candidate C E)} (targets : ∀ t ∈ ts, t.2.target ∈ m.ids) {i : NodeId}
    (hi : ∀ t ∈ ts, m.scope t ∉ m.ancestors i) : i ∈ ts.foldl m.advance active ↔ i ∈ active := by
  induction ts generalizing active with
  | nil => exact Iff.rfl
  | cons t rest ih =>
    have htarget := targets t List.mem_cons_self
    rw [List.foldl_cons, ih (tree.legal_advance legal htarget)
      (fun u hu => targets u (List.mem_cons_of_mem _ hu))
      fun u hu => hi u (List.mem_cons_of_mem _ hu)]
    exact tree.mem_advance_outside legal htarget (hi t List.mem_cons_self)

section

variable {active : List NodeId} {ts l r : List (NodeId × Candidate C E)}
  {t : NodeId × Candidate C E}

theorem source_stays (h : m.SideBySide active (l ++ t :: r)) :
    t.1 ∈ l.foldl m.advance active := by
  have hs := h.sources t (List.mem_append_right _ List.mem_cons_self)
  have hl := (List.pairwise_append.mp h.apart).2.2
  refine (tree.mem_foldl_outside h.legal
    (fun u hu => h.targets u (List.mem_append_left _ hu)) fun u hu => ?_).mpr hs
  exact tree.source_outside_of_apart (hl u hu t List.mem_cons_self) (h.legal.nodes _ hs)

/-- In its scope each transition does what it does alone, as the others do nothing there. -/
theorem mem_foldl_inside (h : m.SideBySide active ts) (ht : t ∈ ts) {i : NodeId}
    (hi : m.scope t ∈ m.ancestors i) :
    i ∈ ts.foldl m.advance active ↔ i ∈ m.advance active t := by
  obtain ⟨l, r, rfl⟩ := List.append_of_mem ht
  have hl := (List.pairwise_append.mp h.apart).2.2
  have hr := (List.pairwise_cons.mp (List.pairwise_append.mp h.apart).2.1).1
  have before := fun u hu => h.targets u (List.mem_append_left (t :: r) hu)
  have after := fun u hu =>
    h.targets u (List.mem_append_right l (List.mem_cons_of_mem (a := u) t hu))
  have legal := (tree.legal_foldl_advance h.legal h.arranged before).1
  rw [List.foldl_append, List.foldl_cons,
    tree.mem_foldl_outside (tree.legal_advance legal (h.targets t ht)) after
      fun u hu => tree.not_mem_scope_of_apart (hr u hu).symm hi]
  refine advance_agree legal h.legal (tree.source_stays h) (h.sources t ht) ?_
  exact tree.mem_foldl_outside h.legal before fun u hu =>
    tree.not_mem_scope_of_apart (hl u hu t List.mem_cons_self) hi

theorem foldl_advance_perm {order : List (NodeId × Candidate C E)} (h : m.SideBySide active ts)
    (perm : order.Perm ts) : order.foldl m.advance active = ts.foldl m.advance active := by
  have h' := h.perm perm
  have arranged := (tree.legal_foldl_advance h.legal h.arranged h.targets).2
  have arranged' := (tree.legal_foldl_advance h'.legal h'.arranged h'.targets).2
  refine arranged'.ext arranged fun i => ?_
  by_cases hin : ∃ t ∈ ts, m.scope t ∈ m.ancestors i
  · obtain ⟨t, ht, hi⟩ := hin
    rw [tree.mem_foldl_inside h ht hi, tree.mem_foldl_inside h' (perm.mem_iff.mpr ht) hi]
  · have hout : ∀ t ∈ ts, m.scope t ∉ m.ancestors i := fun t ht hi => hin ⟨t, ht, hi⟩
    rw [tree.mem_foldl_outside h.legal h.targets hout,
      tree.mem_foldl_outside h'.legal h'.targets fun t ht => hout t (perm.mem_iff.mp ht)]

end

end IsTree

variable [Event E]

theorem IsTree.activeOf_step (tree : m.IsTree) {s : Snapshot C} {active : List NodeId}
    (begun : m.activeOf s.configuration = .ok active)
    (consistent : m.isConsistent s.configuration = true) (trigger : Trigger E) :
    m.activeOf (m.step s trigger active).configuration =
      .ok (m.applied s trigger active).active := by
  obtain ⟨legal, arranged⟩ := tree.legal_of_consistent begun consistent
  unfold step
  dsimp only
  split
  · rename_i hnil
    rw [applied, List.isEmpty_iff.mp hnil]
    exact begun
  · have targets : ∀ t ∈ (m.select ⟨s.context, trigger, s.configuration⟩ active).1,
        t.2.target ∈ m.ids := fun t ht => tree.target_of_mem_select ht
    obtain ⟨legal', arranged'⟩ := tree.legal_foldl_advance legal arranged targets
    rw [applied, foldl_take_active]
    exact tree.activeOf_configurationOf legal' arranged'

/-- Selected transitions whose scopes lie apart are all taken, whatever the order; the nodes active in
the end are the same in every order, below each scope those that its transition alone would lead to,
and everywhere else those that were active before. -/
theorem regions_compose {spec : ChartSpec C E} (built : spec.build = .ok m) {s : Snapshot C}
    {trigger : Trigger E} {active : List NodeId}
    (consistent : m.isConsistent s.configuration = true)
    (begun : m.activeOf s.configuration = .ok active)
    (apart : (m.select ⟨s.context, trigger, s.configuration⟩ active).1.Pairwise m.Apart) :
    let selected := (m.select ⟨s.context, trigger, s.configuration⟩ active).1
    let start : Progress C := ⟨active, s.context, []⟩
    ∃ next now, m.transition s trigger = .ok next ∧ m.activeOf next.configuration = .ok now ∧
      (selected ≠ [] → next.configuration = m.configurationOf now) ∧
      (∀ order, order.Perm selected → (order.foldl (m.take trigger) start).active = now ∧
        ∀ l t r, order = l ++ t :: r →
          let p := l.foldl (m.take trigger) start
          t.1 ∈ p.active ∧ p.Performs trigger
            (m.passEffects (m.exits p.active t) t.2.actions (m.enters p.active t))
            (m.take trigger p t)) ∧
      (∀ t ∈ selected, ∀ i, m.scope t ∈ m.ancestors i →
        (i ∈ now ↔ i ∈ (m.take trigger start t).active)) ∧
      ∀ i, (∀ t ∈ selected, m.scope t ∉ m.ancestors i) → (i ∈ now ↔ i ∈ active) := by
  intro selected start
  have tree := ChartSpec.isTree_of_build built
  obtain ⟨legal, arranged⟩ := tree.legal_of_consistent begun consistent
  have side : m.SideBySide active selected :=
    ⟨legal, arranged, fun t ht => tree.target_of_mem_select ht,
      fun t ht => tree.source_of_mem_select legal ht, apart⟩
  have hnow : (m.applied s trigger active).active = selected.foldl m.advance active :=
    foldl_take_active trigger start selected
  refine ⟨_, _, transition_of_consistent begun consistent trigger,
    hnow ▸ tree.activeOf_step begun consistent trigger, fun hne => ?_, fun order perm => ⟨?_, ?_⟩,
    fun t ht i hi => ?_, fun i hi => tree.mem_foldl_outside legal side.targets hi⟩
  · rw [← hnow]
    simp [step, applied, selected, hne]
  · rw [foldl_take_active]
    exact tree.foldl_advance_perm side perm
  · rintro l t r rfl
    have hs : t.1 ∈ (l.foldl (m.take trigger) start).active := by
      rw [foldl_take_active]
      exact tree.source_stays (side.perm perm)
    exact ⟨hs, performs_of_mem trigger hs⟩
  · rw [take_active]
    exact tree.mem_foldl_inside side ht hi

end Chart

/-- Two regions turn up on one event, and a third only reads and stays in place. -/
def mixer : ChartSpec Unit Signal where
  name := "mixer"
  context := ()
  initial := some "desk"
  states := [
    { key := "desk"
      shape := .parallel
      states := [
        { key := "left"
          shape := .compound
          initial := some "low"
          states := [
            { key := "low", shape := .atomic, on := [("START", { target := some "high" })] },
            { key := "high", shape := .atomic }] },
        { key := "right"
          shape := .compound
          initial := some "low"
          states := [
            { key := "low", shape := .atomic, on := [("START", { target := some "high" })] },
            { key := "high", shape := .atomic }] },
        { key := "meter", shape := .atomic, on := [("START", { actions := [.run "read"] })] }] }]

theorem mixer_built : mixer.build = .ok mixer.chart := by
  refine ChartSpec.build_eq_ok_iff.mpr ⟨?_, rfl⟩
  exact List.isEmpty_iff.mp (by decide +kernel)

def mixerSelected : List (NodeId × Candidate Unit Signal) :=
  (mixer.chart.select ⟨(), .event .start, mixer.chart.initial.configuration⟩
    (mixer.chart.defaults Chart.root)).1

theorem mixer_composes : mixerSelected.map mixer.chart.scope = [2, 5, 8] ∧
    ∃ next, mixer.chart.transition mixer.chart.initial (.event .start) = .ok next ∧
      next.configuration.leaves = [⟨"desk.left.high"⟩, ⟨"desk.meter"⟩, ⟨"desk.right.high"⟩] ∧
      ∀ order : List (NodeId × Candidate Unit Signal), order.Perm mixerSelected →
        (order.foldl (mixer.chart.take (.event .start))
          ⟨mixer.chart.defaults Chart.root, (), []⟩).active = [0, 1, 2, 4, 5, 7, 8] := by
  have tree := ChartSpec.isTree_of_build mixer_built
  have hactive : (mixerSelected.foldl (mixer.chart.take (.event .start))
      ⟨mixer.chart.defaults Chart.root, (), []⟩).active = [0, 1, 2, 4, 5, 7, 8] := by
    decide +kernel
  have apart : mixerSelected.Pairwise mixer.chart.Apart := by decide +kernel
  obtain ⟨next, now, hnext, -, hconfiguration, hsame, -⟩ :=
    Chart.regions_compose mixer_built (s := mixer.chart.initial) (by decide +kernel)
      (tree.activeOf_settled tree.settled_initial) apart
  obtain rfl := (hsame _ (.refl _)).1.symm.trans hactive
  refine ⟨by decide +kernel, next, hnext, ?_, fun order perm => (hsame order perm).1⟩
  rw [hconfiguration (by decide +kernel)]
  decide +kernel

end Statechart
