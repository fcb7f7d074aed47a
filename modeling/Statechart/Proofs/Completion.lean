import Statechart.Proofs.Run
import Statechart.Proofs.Value

/-! Default completion. What becomes active below a domain when a target is entered is settled by the
target and by the declared defaults: no other set fills the domain, contains the target and has the
defaults off the way to it. The same goes for the legal set of a chart at rest in a named state. -/
namespace Statechart
namespace Chart

variable {C E : Type} {m : Chart C E}

/-- A compound node of the set is there with its initial child, unless it lies above the target. -/
def Defaulted (m : Chart C E) (target : NodeId) (active : List NodeId) : Prop :=
  ∀ {i initial}, i ∈ active → m.kind? i = some (.compound initial) → i ∉ m.ancestors target →
    initial ∈ active

/-- What fills the domain with the target in it, and with defaults off the way to the target. -/
structure Completes (m : Chart C E) (domain target : NodeId) (entering : List NodeId) : Prop
    extends m.Fills domain entering where
  mem : target ∈ entering
  defaulted : m.Defaulted target entering

/-- A legal set with the target in it, and with defaults off the way to the target. -/
structure RestsAt (m : Chart C E) (target : NodeId) (active : List NodeId) : Prop
    extends m.Legal active where
  mem : target ∈ active
  defaulted : m.Defaulted target active

/-- The set has the children of a node that its kind, the target and the defaults ask for. -/
structure CompleteAt (m : Chart C E) (target : NodeId) (active : List NodeId) (p : NodeId) :
    Prop where
  compound : m.isCompound p = true → ∃! c, c ∈ m.children p ∧ c ∈ active
  parallel : m.isParallel p = true → ∀ c ∈ m.children p, c ∈ active
  toward : ∀ c ∈ m.children p, c = target ∨ c ∈ m.ancestors target → c ∈ active
  initial : ∀ {initial}, m.kind? p = some (.compound initial) → p ∉ m.ancestors target →
    initial ∈ active

theorem Fills.congr {domain : NodeId} {entering entering' : List NodeId}
    (fills : m.Fills domain entering) (h : ∀ i, i ∈ entering' ↔ i ∈ entering) :
    m.Fills domain entering' where
  below i hi := fills.below i ((h i).mp hi)
  top := (existsUnique_congr fun c => and_congr_right fun _ => h c).mpr fills.top
  parent hc hp := (fills.parent ((h _).mp hc) hp).imp_right (h _).mpr
  compound i hi hc :=
    (existsUnique_congr fun c => and_congr_right fun _ => h c).mpr
      (fills.compound i ((h i).mp hi) hc)
  parallel i hi hp c hc := (h c).mpr (fills.parallel i ((h i).mp hi) hp c hc)

namespace IsTree

variable (tree : m.IsTree)
include tree

/-- Of a compound node, two complete sets have one child in common, so they have no other. -/
theorem child_mem_of_completeAt {target p c : NodeId} {active active' : List NodeId}
    (h : m.CompleteAt target active p) (h' : m.CompleteAt target active' p)
    (hc : c ∈ m.children p) (hmem : c ∈ active) : c ∈ active' := by
  rcases kind_cases (mem_ids_of_children hc) with hatomic | hcompound | hparallel
  · rw [tree.atomic hatomic] at hc
    exact absurd hc List.not_mem_nil
  · have common : ∃ d ∈ m.children p, d ∈ active ∧ d ∈ active' := by
      by_cases hp : p ∈ m.ancestors target
      · obtain ⟨d, hd, hdt⟩ := tree.exists_child_above hp
        exact ⟨d, hd, h.toward d hd hdt, h'.toward d hd hdt⟩
      · obtain ⟨initial, hk⟩ := isCompound_iff.mp hcompound
        exact ⟨initial, tree.compound hk, h.initial hk hp, h'.initial hk hp⟩
    obtain ⟨d, hd, hda, hda'⟩ := common
    have hcd : c = d := (h.compound hcompound).unique ⟨hc, hmem⟩ ⟨hd, hda⟩
    exact hcd ▸ hda'
  · exact h'.parallel hparallel c hc

theorem mem_of_ancestors_fills {domain a i : NodeId} {entering : List NodeId}
    (fills : m.Fills domain entering) (hi : i ∈ entering) (ha : a ∈ m.ancestors i)
    (hd : domain ∈ m.ancestors a) : a ∈ entering := by
  -- what is above the domain is not below it
  induction ha using tree.below_induction with
  | child c hc =>
    rcases fills.parent hi hc with rfl | ha
    · exact absurd hd (tree.not_mem_ancestors_self _)
    · exact ha
  | deeper p c hc ha ih =>
    rcases fills.parent hi hc with rfl | hp
    · exact absurd hd (tree.not_mem_ancestors_of_mem ha)
    · exact ih hp

section

variable {domain target : NodeId} {entering entering' : List NodeId}
  (h : m.Completes domain target entering)
include h

theorem toward_of_completes {p c : NodeId} (hp : p = domain ∨ p ∈ entering)
    (hc : c ∈ m.children p) (hct : c = target ∨ c ∈ m.ancestors target) : c ∈ entering := by
  rcases hct with rfl | hct
  · exact h.mem
  · refine tree.mem_of_ancestors_fills h.toFills h.mem hct ?_
    rw [tree.mem_ancestors_child hc]
    exact hp.imp Eq.symm (h.below p)

theorem completeAt_domain (hd : m.isCompound domain = true) (ht : domain ∈ m.ancestors target) :
    m.CompleteAt target entering domain where
  compound _ := h.top
  parallel hp := by
    rw [not_isParallel_of_isCompound hd] at hp
    exact absurd hp Bool.false_ne_true
  toward _ hc hct := tree.toward_of_completes h (.inl rfl) hc hct
  initial _ hn := absurd ht hn

theorem completeAt_entering {i : NodeId} (hi : i ∈ entering) : m.CompleteAt target entering i where
  compound := h.compound i hi
  parallel := h.parallel i hi
  toward _ hc hct := tree.toward_of_completes h (.inr hi) hc hct
  initial hk hn := h.defaulted hi hk hn

theorem completes_subset (h' : m.Completes domain target entering')
    (hd : m.isCompound domain = true) (ht : domain ∈ m.ancestors target) {i : NodeId}
    (hi : i ∈ entering) : i ∈ entering' := by
  induction mem_ids_of_ancestors (h.below i hi) using tree.down_induction with
  | top => exact absurd rfl (tree.ne_root_of_mem_ancestors (h.below root hi))
  | child p c hc ih =>
    rcases h.parent hi hc with rfl | hp
    · exact tree.child_mem_of_completeAt (tree.completeAt_domain h hd ht)
        (tree.completeAt_domain h' hd ht) hc hi
    · exact tree.child_mem_of_completeAt (tree.completeAt_entering h hp)
        (tree.completeAt_entering h' (ih hp)) hc hi

end

theorem defaulted_entrySet {domain target : NodeId} (ht : domain ∈ m.ancestors target) :
    m.Defaulted target (m.entrySet domain target) := by
  intro i initial hi hk hn
  have hoff : i = target ∨ i ∉ m.lineage domain target := by
    by_cases hit : i = target
    · exact .inl hit
    · refine .inr fun hl => hn ?_
      exact (((tree.mem_lineage ht).mp hl).resolve_left hit).1
  refine (tree.mem_entrySet_iff_default ht hi hoff (tree.compound hk)).mpr ?_
  exact (isDefaultChild_compound hk).mpr rfl

theorem completes_iff {domain target : NodeId} (hd : m.isCompound domain = true)
    (ht : domain ∈ m.ancestors target) {entering : List NodeId} :
    m.Completes domain target entering ↔ ∀ i, i ∈ entering ↔ i ∈ m.entrySet domain target := by
  have hentry : m.Completes domain target (m.entrySet domain target) :=
    ⟨tree.entrySet_fills ht hd, tree.target_mem_entrySet ht, tree.defaulted_entrySet ht⟩
  constructor
  · intro h i
    exact ⟨tree.completes_subset h hentry hd ht, tree.completes_subset hentry h hd ht⟩
  · intro h
    refine ⟨hentry.toFills.congr h, (h target).mpr hentry.mem, ?_⟩
    intro i initial hi hk hn
    exact (h initial).mpr (hentry.defaulted ((h i).mp hi) hk hn)

theorem completeAt_active {target : NodeId} {active : List NodeId}
    (h : m.RestsAt target active) {i : NodeId} (hi : i ∈ active) :
    m.CompleteAt target active i where
  compound := h.compound i hi
  parallel := h.parallel i hi
  toward c _ hct := by
    rcases hct with rfl | hct
    · exact h.mem
    · exact tree.mem_of_ancestors h.toLegal h.mem hct
  initial hk hn := h.defaulted hi hk hn

theorem restsAt_subset {target : NodeId} {active active' : List NodeId}
    (h : m.RestsAt target active) (h' : m.RestsAt target active') {i : NodeId}
    (hi : i ∈ active) : i ∈ active' := by
  induction hi using tree.legal_induction h.toLegal with
  | top => exact h'.rooted
  | child p c hc hact ih =>
    have hp : p ∈ active := h.parent hact (tree.parent_child hc)
    exact tree.child_mem_of_completeAt (tree.completeAt_active h hp)
      (tree.completeAt_active h' ih) hc hact

theorem restsAt_root : m.RestsAt root (m.defaults root) where
  toLegal := tree.legal_defaults_root
  mem := tree.legal_defaults_root.rooted
  defaulted := by
    intro i initial hi hk _
    refine (tree.mem_defaults_child (tree.compound hk)).mpr (.inr ⟨?_, hi⟩)
    exact (isDefaultChild_compound hk).mpr rfl

theorem restsAt_entrySet {target : NodeId} (htarget : target ∈ m.ids) (hne : target ≠ root) :
    m.RestsAt target
      (m.ids.filter fun i => i == root || (m.entrySet root target).contains i) := by
  have habove := tree.root_mem_ancestors htarget hne
  have hmem : ∀ {i}, i ∈ m.entrySet root target →
      i ∈ m.ids.filter fun i => i == root || (m.entrySet root target).contains i := by
    intro i hi
    exact List.mem_filter.mpr ⟨mem_ids_of_spread hi, by simp [hi]⟩
  refine ⟨tree.legal_resting htarget hne, hmem (tree.target_mem_entrySet habove), ?_⟩
  intro i initial hi hk hn
  have hi : i = root ∨ i ∈ m.entrySet root target := by
    simpa using (List.mem_filter.mp hi).2
  rcases hi with rfl | hi
  · exact absurd habove hn
  · exact hmem (tree.defaulted_entrySet habove hi hk hn)

variable [Event E]

theorem restingAt_path {i : NodeId} {n : Node C E} (hn : m.node? i = some n) :
    ∃ s active, m.restingAt n.path = .ok s ∧ m.Settled active s.configuration ∧
      m.RestsAt i active := by
  have hlookup := tree.lookup_eq_ok_iff.mpr ⟨n, hn, rfl⟩
  by_cases hr : i = root
  · subst hr
    refine ⟨_, m.defaults root, by rw [restingAt, hlookup]; rfl, ?_, tree.restsAt_root⟩
    exact ⟨tree.legal_defaults_root, arranged_filter m _, if_pos rfl ▸ rfl⟩
  · have rests := tree.restsAt_entrySet (mem_ids.mpr ⟨n, hn⟩) hr
    refine ⟨_, _, by rw [restingAt, hlookup]; rfl, ?_, rests⟩
    exact ⟨rests.toLegal, arranged_filter m _, by rw [if_neg hr]⟩

end IsTree

/-- From a compound node, entering a target below it enters the one set that fills the node, contains
the target and has defaults off the way to it. At rest in a named state the chart has the one legal
set that contains the state and has defaults off the way to it; in the root, that of the start. -/
theorem defaults_complete [Event E] {spec : ChartSpec C E} (built : spec.build = .ok m) :
    (∀ domain target, m.isCompound domain = true → domain ∈ m.ancestors target →
      ∀ entering, m.Completes domain target entering ↔
        ∀ i, i ∈ entering ↔ i ∈ m.entrySet domain target) ∧
    (∀ i n, m.node? i = some n → ∃ s active, m.restingAt n.path = .ok s ∧
      m.activeOf s.configuration = .ok active ∧ m.RestsAt i active ∧
      ∀ active', m.RestsAt i active' →
        (∀ j, j ∈ active' ↔ j ∈ active) ∧ m.configurationOf active' = s.configuration) ∧
    ∃ s, m.restingAt .root = .ok s ∧ s.configuration = m.initial.configuration := by
  have tree := ChartSpec.isTree_of_build built
  have resting : ∀ i n, m.node? i = some n → ∃ s active, m.restingAt n.path = .ok s ∧
      m.activeOf s.configuration = .ok active ∧ m.RestsAt i active ∧
      ∀ active', m.RestsAt i active' →
        (∀ j, j ∈ active' ↔ j ∈ active) ∧ m.configurationOf active' = s.configuration := by
    intro i n hn
    obtain ⟨s, active, hs, settled, rests⟩ := tree.restingAt_path hn
    refine ⟨s, active, hs, tree.activeOf_settled settled, rests, fun active' rests' => ?_⟩
    have hsame : ∀ j, j ∈ active' ↔ j ∈ active := fun j =>
      ⟨tree.restsAt_subset rests' rests, tree.restsAt_subset rests rests'⟩
    refine ⟨hsame, ?_⟩
    rw [settled.2.2]
    refine Configuration.eq_of_same_leaves fun p => ?_
    simp only [mem_configurationOf, hsame]
  refine ⟨fun domain target hd ht entering => tree.completes_iff hd ht, resting, ?_⟩
  obtain ⟨n, hn, -, hpath, -⟩ := tree.rooted
  obtain ⟨s, _, hs, _, _, honly⟩ := resting root n hn
  exact ⟨s, hpath ▸ hs, (honly _ tree.restsAt_root).2.symm⟩

end Chart

/-- A relay that is entered at its busy state waits on the right, as that is the default there. -/
theorem relay_completes_busy :
    (∀ entering, relay.chart.Completes Chart.root 4 entering ↔
      ∀ i, i ∈ entering ↔ i ∈ [1, 2, 4, 5, 6]) ∧
    ∃ s active, relay.chart.restingAt ⟨"work.left.busy"⟩ = .ok s ∧
      relay.chart.activeOf s.configuration = .ok active ∧ relay.chart.RestsAt 4 active := by
  have hentry : relay.chart.entrySet Chart.root 4 = [1, 2, 4, 5, 6] := by decide +kernel
  obtain ⟨below, resting, -⟩ := Chart.defaults_complete relay_built
  refine ⟨hentry ▸ below Chart.root 4 (by decide +kernel) (by decide +kernel), ?_⟩
  obtain ⟨s, active, hs, hactive, rests, -⟩ := resting 4 _ rfl
  exact ⟨s, active, hs, hactive, rests⟩

end Statechart
