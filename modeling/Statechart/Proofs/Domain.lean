import Statechart.Proofs.Conduct

/-! Domains. A transition exits and enters only what lies below its domain: all that is active there
goes, innermost first, and what its target asks for comes, outermost first, with its own actions in
between. The domain is the source of a transition that goes down inside of it, and else the least
compound node around source and target. -/
namespace Statechart
namespace Chart

variable {C E : Type} {m : Chart C E}

/-- A compound node strictly around both others, and the innermost such node. -/
structure LeastAround (m : Chart C E) (i j d : NodeId) : Prop where
  compound : m.isCompound d = true
  left : d ∈ m.ancestors i
  right : d ∈ m.ancestors j
  least : ∀ e, m.isCompound e = true → e ∈ m.ancestors i → e ∈ m.ancestors j →
    e = d ∨ e ∈ m.ancestors d

/-- Whether a transition stays inside its source and goes down from there. -/
def Descends (m : Chart C E) (t : NodeId × Candidate C E) : Prop :=
  t.2.internal = true ∧ m.isCompound t.1 = true ∧ t.1 ∈ m.ancestors t.2.target

theorem domain_of_descends {t : NodeId × Candidate C E} (h : m.Descends t) :
    m.domain t.1 t.2.target t.2.internal = t.1 := by
  obtain ⟨hinternal, hcompound, habove⟩ := h
  simp [domain, hinternal, hcompound, habove]

namespace IsTree

variable (tree : m.IsTree)
include tree

/-- Below the root there is always a least compound node around two nodes: the root is one. -/
theorem leastAround_domain {t : NodeId × Candidate C E} (hsource : t.1 ∈ m.ids)
    (hs : t.1 ≠ root) (htarget : t.2.target ∈ m.ids) (ht : t.2.target ≠ root)
    (h : ¬m.Descends t) :
    m.LeastAround t.1 t.2.target (m.domain t.1 t.2.target t.2.internal) := by
  obtain ⟨d, hd⟩ := Option.isSome_iff_exists.mp (List.find?_isSome
    (p := fun id => m.isCompound id && m.isAncestor id t.2.target).mpr
    ⟨root, tree.root_mem_ancestors hsource hs, by
      simp [tree.isCompound_root, tree.root_mem_ancestors htarget ht]⟩)
  have hdomain : m.domain t.1 t.2.target t.2.internal = d := by
    unfold domain
    rw [if_neg fun hc => h (by simpa [Descends, and_assoc] using hc), hd, Option.getD_some]
  obtain ⟨hholds, inner, outer, hsplit, hinner⟩ := List.find?_eq_some_iff_append.mp hd
  simp only [Bool.and_eq_true, isAncestor_iff] at hholds
  have hleft : d ∈ m.ancestors t.1 := hsplit ▸ List.mem_append_right _ List.mem_cons_self
  rw [hdomain]
  refine ⟨hholds.1, hleft, hholds.2, fun e hc hes het => ?_⟩
  rcases tree.ancestors_comparable hes hleft with rfl | hed | hde
  · exact .inl rfl
  · exact .inr hed
  · -- a compound node around both that lies further in would have been found before
    have hlt := tree.lt_of_mem_ancestors hde
    have hpair := tree.pairwise_ancestors hsource
    rw [hsplit] at hes hpair
    rcases List.mem_append.mp hes with hin | hout
    · exact absurd (hinner e hin) (by simp [hc, het])
    · rcases List.mem_cons.mp hout with rfl | hout
      · exact absurd hlt (Nat.lt_irrefl _)
      · have := (List.pairwise_cons.mp (List.pairwise_append.mp hpair).2.1).1 e hout
        exact absurd hlt (Nat.lt_asymm this)

end IsTree

theorem mem_before {α : Type} {R : α → α → Prop} {l r : List α} {i j : α}
    (h : (l ++ i :: r).Pairwise R) (hj : j ∈ l ++ i :: r) (hji : j ≠ i) (hn : ¬R i j) :
    j ∈ l := by
  rcases List.mem_append.mp hj with hl | hr
  · exact hl
  · have hr := (List.mem_cons.mp hr).resolve_left hji
    exact absurd ((List.pairwise_cons.mp (List.pairwise_append.mp h).2.1).1 j hr) hn

theorem not_mem_before {α : Type} {R : α → α → Prop} {l r : List α} {i : α}
    (h : (l ++ i :: r).Pairwise R) (hn : ¬R i i) : i ∉ l :=
  fun hi => hn ((List.pairwise_append.mp h).2.2 i hi i List.mem_cons_self)

theorem pairwise_filter_ids (m : Chart C E) (p : NodeId → Bool) :
    (m.ids.filter p).Pairwise (· < ·) := List.pairwise_lt_range.filter p

theorem pairwise_exits {active : List NodeId} (arranged : m.Arranged active)
    (t : NodeId × Candidate C E) : (m.exits active t).Pairwise (· > ·) := by
  unfold exits
  split
  · rw [List.pairwise_reverse]
    have ascending := arranged ▸ pairwise_filter_ids m active.contains
    exact ascending.filter _
  · exact List.Pairwise.nil

theorem pairwise_enters (active : List NodeId) (t : NodeId × Candidate C E) :
    (m.enters active t).Pairwise (· < ·) := by
  unfold enters
  split
  · exact pairwise_filter_ids m _
  · exact List.Pairwise.nil

/-- What a transition does from one progress to the next. All that is active below the domain is
exited, each node once and after all that is active below it; then come the transition's own actions;
then all that is active below the domain afterwards is entered, each node once and after its parent.
Nothing else is changed, and no delay of another node is started or ended. -/
structure Conducts (m : Chart C E) (trigger : Trigger E) (t : NodeId × Candidate C E)
    (p q : Progress C) (domain : NodeId) (exiting entering : List NodeId) : Prop where
  exited : ∀ i, i ∈ exiting ↔ i ∈ p.active ∧ domain ∈ m.ancestors i
  innermost_first : ∀ l i r, exiting = l ++ i :: r →
    i ∉ l ∧ ∀ j ∈ p.active, i ∈ m.ancestors j → j ∈ l
  entered : ∀ i, i ∈ entering ↔ i ∈ q.active ∧ domain ∈ m.ancestors i
  outermost_first : ∀ l i r, entering = l ++ i :: r →
    i ∉ l ∧ ∃ above, m.parent i = some above ∧ (above = domain ∨ above ∈ l)
  kept : ∀ i, domain ∉ m.ancestors i → (i ∈ q.active ↔ i ∈ p.active)
  performs : p.Performs trigger (m.passEffects exiting t.2.actions entering) q
  untimed : ∀ i n, m.node? i = some n → domain ∉ m.ancestors i →
    ∀ e ∈ m.passEffects exiting t.2.actions entering, e.state? ≠ some n.path

namespace IsTree

variable (tree : m.IsTree)
include tree

theorem untimed_of_not_mem {exiting entering : List NodeId} {actions : List (Action C E)}
    {i : NodeId} {n : Node C E} (hn : m.node? i = some n) (hexiting : i ∉ exiting)
    (hentering : i ∉ entering) :
    ∀ e ∈ m.passEffects exiting actions entering, e.state? ≠ some n.path := by
  intro e he hstate
  rcases List.mem_append.mp he with he | he
  · rcases List.mem_append.mp he with he | he
    · obtain ⟨j, hj, he⟩ := List.mem_flatMap.mp he
      obtain ⟨n', hn', hpath⟩ := path_of_state? (.inl he) hstate
      exact hexiting (tree.path_inj hn' hn hpath ▸ hj)
    · exact not_mem_acts hstate he
  · obtain ⟨j, hj, he⟩ := List.mem_flatMap.mp he
    obtain ⟨n', hn', hpath⟩ := path_of_state? (.inr he) hstate
    exact hentering (tree.path_inj hn' hn hpath ▸ hj)

theorem conducts_take {p : Progress C} (legal : m.Legal p.active) (arranged : m.Arranged p.active)
    {t : NodeId × Candidate C E} (hs : t.1 ∈ p.active) (hmoves : inPlace t = false)
    (htarget : t.2.target ∈ m.ids) (ht : t.2.target ≠ root) (trigger : Trigger E) :
    m.Conducts trigger t p (m.take trigger p t) (m.domain t.1 t.2.target t.2.internal)
      (m.exits p.active t) (m.enters p.active t) := by
  obtain ⟨hd, hc, hbelow⟩ := tree.domain_spec legal hs htarget t.2.internal
  have hbelow := hbelow.resolve_right fun h => ht h.2
  have hscope : m.scope t = m.domain t.1 t.2.target t.2.internal := by simp [scope, hmoves]
  generalize m.domain t.1 t.2.target t.2.internal = domain at *
  have hexits : ∀ i, i ∈ m.exits p.active t ↔ i ∈ p.active ∧ domain ∈ m.ancestors i := by
    simp [mem_exits, hs, hmoves, hscope]
  have henters : ∀ i, i ∈ m.enters p.active t ↔ i ∈ m.entrySet domain t.2.target := by
    simp [mem_enters, hs, hmoves, hscope]
  have hafter : ∀ i, i ∈ (m.take trigger p t).active ↔
      (i ∈ p.active ∧ domain ∉ m.ancestors i) ∨ i ∈ m.entrySet domain t.2.target := by
    intro i
    rw [take_active, mem_advance_iff legal, hexits, henters]
    tauto
  have fills := tree.entrySet_fills hbelow hc
  constructor
  case exited => exact hexits
  case innermost_first =>
    intro l i r hsplit
    have hpair := hsplit ▸ pairwise_exits arranged t
    refine ⟨not_mem_before hpair (Nat.lt_irrefl i), fun j hj hij => ?_⟩
    have hlt := tree.lt_of_mem_ancestors hij
    have hdi : domain ∈ m.ancestors i := ((hexits i).mp (hsplit ▸ by simp)).2
    have hjmem := (hexits j).mpr ⟨hj, tree.ancestors_trans hdi hij⟩
    exact mem_before hpair (hsplit ▸ hjmem) (Nat.ne_of_gt hlt) (Nat.lt_asymm hlt)
  case entered =>
    intro i
    rw [henters, hafter]
    have hdi := fills.below i
    tauto
  case outermost_first =>
    intro l i r hsplit
    have hpair := hsplit ▸ pairwise_enters p.active t
    refine ⟨not_mem_before hpair (Nat.lt_irrefl i), ?_⟩
    have hi := (henters i).mp (hsplit ▸ by simp)
    have hbelow := fills.below i hi
    obtain ⟨above, habove⟩ :=
      tree.exists_parent (mem_ids_of_ancestors hbelow) (tree.ne_root_of_mem_ancestors hbelow)
    refine ⟨above, tree.parent_child habove, (fills.parent hi habove).imp_right fun hmem => ?_⟩
    have hlt := tree.lt_child habove
    exact mem_before hpair (hsplit ▸ (henters above).mpr hmem) (Nat.ne_of_lt hlt)
      (Nat.lt_asymm hlt)
  case kept =>
    intro i hi
    rw [hafter]
    have hdi := fills.below i
    tauto
  case performs => exact performs_of_mem trigger hs
  case untimed =>
    intro i n hn hi
    refine tree.untimed_of_not_mem hn (fun h => hi ((hexits i).mp h).2) fun h => ?_
    exact hi (fills.below i ((henters i).mp h))

end IsTree

variable [Event E]

/-- A selected transition with an active source that leaves its place and does not lead to the root:
its domain is its source if it goes down inside of it, and else the least compound node around source
and target; it exits and enters below the domain, in order; and what it does comes in the step after
all that the transitions before it have done, and before all that those after it do. -/
theorem transition_conducted {spec : ChartSpec C E} (built : spec.build = .ok m) {s : Snapshot C}
    {trigger : Trigger E} {active : List NodeId} {earlier later : List (NodeId × Candidate C E)}
    {t : NodeId × Candidate C E} {p : Progress C}
    (turn : m.ComesTo s trigger active earlier t later p) (hs : t.1 ∈ p.active)
    (hmoves : inPlace t = false) (ht : t.2.target ≠ root) :
    let domain := m.domain t.1 t.2.target t.2.internal
    let q := m.take trigger p t
    (m.Descends t → domain = t.1) ∧ (¬m.Descends t → m.LeastAround t.1 t.2.target domain) ∧
    ∃ exiting entering, m.Conducts trigger t p q domain exiting entering ∧
      Progress.Performs trigger ⟨active, s.context, []⟩ (m.effects active earlier) p ∧
      ∃ next effects, m.transition s trigger = .ok next ∧
        effects = m.effects active earlier ++ m.passEffects exiting t.2.actions entering ++
          m.effects q.active later ∧
        next.fired = effects.map Effect.fired ∧
        next.context = effects.foldl (Effect.update trigger) s.context := by
  have tree := ChartSpec.isTree_of_build built
  obtain ⟨legal, arranged⟩ := turn.legal tree
  have htarget := turn.target_mem tree
  have hsource := ChartSpec.source_ne_root built turn.mem_selected
  refine ⟨domain_of_descends,
    tree.leastAround_domain (legal.nodes _ hs) hsource htarget ht, _, _,
    tree.conducts_take legal arranged hs hmoves htarget ht trigger, turn.performs,
    _, _, transition_of_consistent turn.begun turn.consistent trigger, rfl, ?_⟩
  have heffects : m.effects active (earlier ++ t :: later) = m.effects active earlier ++
      (m.effectsOf p.active t ++ m.effects (m.take trigger p t).active later) := by
    rw [effects_append, ← turn.active_eq, take_active]
    rfl
  have hstep := step_effects (m := m) s trigger active
  rw [turn.selected, heffects, effectsOf, if_pos (by simpa using hs), ← List.append_assoc] at hstep
  exact hstep

end Chart

def goBusy : NodeId × Candidate Unit Signal := (3, ⟨4, none, false, []⟩)

def goRest : NodeId × Candidate Unit Signal := (6, ⟨7, none, false, []⟩)

def madeBusy : Progress Unit :=
  relay.chart.take (.event .go) ⟨relay.chart.defaults Chart.root, (), []⟩ goBusy

/-- The relay, going, comes to its rest once it has made itself busy. -/
theorem relay_comes_to_rest :
    relay.chart.ComesTo relay.chart.initial (.event .go) (relay.chart.defaults Chart.root)
      [goBusy] goRest [] madeBusy where
  consistent := by decide +kernel
  begun :=
    have tree := ChartSpec.isTree_of_build relay_built
    tree.activeOf_settled tree.settled_initial
  selected := rfl
  progress := rfl

theorem relay_rest_conducted : relay.chart.LeastAround 6 7 Chart.root ∧
    ∃ exiting entering, relay.chart.Conducts (.event .go) goRest madeBusy
      (relay.chart.take (.event .go) madeBusy goRest) Chart.root exiting entering := by
  have hdomain : relay.chart.domain 6 7 false = Chart.root := by decide +kernel
  obtain ⟨-, hleast, exiting, entering, conducts, -⟩ :=
    Chart.transition_conducted relay_built relay_comes_to_rest (by decide +kernel) rfl (by decide)
  refine ⟨hdomain ▸ hleast fun h => ?_, exiting, entering, hdomain ▸ conducts⟩
  exact absurd h.1 Bool.false_ne_true

end Statechart
