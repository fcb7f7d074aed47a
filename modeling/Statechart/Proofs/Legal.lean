import Mathlib.Logic.ExistsUnique
import Mathlib.Tactic.ByContra
import Statechart.Proofs.Tree

/-! Legal sets of active nodes, said without the check, and what entering a node adds to them: the
set it fills the place of a node's other descendants with keeps a legal set legal. -/
namespace Statechart.Chart

variable {C E : Type} {m : Chart C E}

structure Legal (m : Chart C E) (active : List NodeId) : Prop where
  nodes : ∀ i ∈ active, i ∈ m.ids
  rooted : root ∈ active
  parent : ∀ {p c}, c ∈ active → m.parent c = some p → p ∈ active
  compound : ∀ i ∈ active, m.isCompound i = true → ∃! c, c ∈ m.children i ∧ c ∈ active
  parallel : ∀ i ∈ active, m.isParallel i = true → ∀ c ∈ m.children i, c ∈ active

theorem length_eq_one_iff_of_nodup {α : Type} {l : List α} (h : l.Nodup) :
    l.length = 1 ↔ ∃! a, a ∈ l := by
  rw [List.length_eq_one_iff]
  constructor
  · rintro ⟨a, rfl⟩
    exact ⟨a, by simp, by simp⟩
  · rintro ⟨a, ha, honly⟩
    refine ⟨a, ?_⟩
    match l, h, ha, honly with
    | [b], _, _, honly => rw [honly b (by simp)]
    | b :: c :: rest, h, _, honly =>
      have hbc : b = c := (honly b (by simp)).trans (honly c (by simp)).symm
      simp [hbc] at h

theorem not_isParallel_of_isCompound {i : NodeId} (h : m.isCompound i = true) :
    m.isParallel i = false := by
  obtain ⟨initial, hk⟩ := isCompound_iff.mp h
  cases hp : m.isParallel i
  · rfl
  · simp [isParallel_iff.mp hp] at hk

namespace IsTree

variable (tree : m.IsTree)
include tree

theorem childrenLegal_iff {active : List NodeId} {i : NodeId} :
    m.childrenLegal active i = true ↔
      (m.isCompound i = true → ∃! c, c ∈ m.children i ∧ c ∈ active) ∧
      (m.isParallel i = true → ∀ c ∈ m.children i, c ∈ active) := by
  have hone := length_eq_one_iff_of_nodup ((tree.nodup_children i).filter active.contains)
  have hall := List.length_filter_eq_length_iff (l := m.children i) (p := active.contains)
  simp only [List.mem_filter, List.contains_eq_mem, decide_eq_true_eq] at hone hall
  unfold childrenLegal
  by_cases hc : m.isCompound i = true
  · simp [hc, not_isParallel_of_isCompound hc, hone]
  · by_cases hp : m.isParallel i = true
    · simp [hc, hp, hall]
    · simp [hc, hp]

theorem isLegal_iff {active : List NodeId} (nodes : ∀ i ∈ active, i ∈ m.ids) :
    m.isLegal active = true ↔ m.Legal active := by
  simp only [isLegal, Bool.and_eq_true, List.contains_eq_mem, decide_eq_true_eq, List.all_eq_true,
    Option.all_eq_true, tree.childrenLegal_iff]
  constructor
  · rintro ⟨hroot, hall⟩
    exact ⟨nodes, hroot, fun hc hp => (hall _ hc).1 _ hp, fun i hi => (hall i hi).2.1,
      fun i hi => (hall i hi).2.2⟩
  · intro h
    exact ⟨h.rooted, fun i hi => ⟨fun p hp => h.parent hi hp, h.compound i hi, h.parallel i hi⟩⟩

theorem legal_induction {active : List NodeId} (legal : m.Legal active)
    {P : (i : NodeId) → i ∈ active → Prop} (top : P root legal.rooted)
    (child : ∀ (p c : NodeId) (hc : c ∈ m.children p) (hact : c ∈ active),
      P p (legal.parent hact (tree.parent_child hc)) → P c hact)
    {i : NodeId} (h : i ∈ active) : P i h := by
  induction legal.nodes i h using tree.down_induction with
  | top => exact top
  | child p c hc ih => exact child p c hc h (ih _)

/-- A legal set is as large as can be. -/
theorem subset_of_legal {active active' : List NodeId} (legal : m.Legal active)
    (legal' : m.Legal active') (h : ∀ i ∈ active, i ∈ active') {i : NodeId} (hi : i ∈ active') :
    i ∈ active := by
  induction hi using tree.legal_induction legal' with
  | top => exact legal.rooted
  | child p c hc hact hp =>
    rcases kind_cases (mem_ids_of_children hc) with hatomic | hcompound | hparallel
    · simp [tree.atomic hatomic] at hc
    · obtain ⟨d, ⟨hd, hdact⟩, -⟩ := legal.compound p hp hcompound
      obtain rfl := (legal'.compound p (h p hp) hcompound).unique ⟨hc, hact⟩ ⟨hd, h d hdact⟩
      exact hdact
    · exact legal.parallel p hp hparallel c hc

end IsTree

theorem isDefaultChild_compound {i initial c : NodeId} (h : m.kind? i = some (.compound initial)) :
    m.isDefaultChild i c = true ↔ c = initial := by
  simp [isDefaultChild, h]

theorem isDefaultChild_parallel {i c : NodeId} (h : m.isParallel i = true) :
    m.isDefaultChild i c = true := by
  simp [isDefaultChild, isParallel_iff.mp h]

/-- All nodes that reach a goal over the links. -/
def spread (m : Chart C E) (link : NodeId → NodeId → Bool) (goal : NodeId → Bool) : List NodeId :=
  m.ids.filter fun id => reaches link goal id (m.ancestors id)

theorem defaults_eq_spread (m : Chart C E) (top : NodeId) :
    m.defaults top = m.spread m.isDefaultChild (· == top) := rfl

theorem mem_ids_of_spread {link : NodeId → NodeId → Bool} {goal : NodeId → Bool} {i : NodeId}
    (h : i ∈ m.spread link goal) : i ∈ m.ids := (List.mem_filter.mp h).1

namespace IsTree

variable (tree : m.IsTree) {link : NodeId → NodeId → Bool} {goal : NodeId → Bool}
include tree

theorem mem_spread_root : root ∈ m.spread link goal ↔ goal root = true := by
  simp [spread, tree.root_mem_ids, tree.ancestors_root, reaches]

theorem mem_spread_child {p c : NodeId} (h : c ∈ m.children p) :
    c ∈ m.spread link goal ↔
      goal c = true ∨ (link p c = true ∧ p ∈ m.spread link goal) := by
  simp [spread, tree.child_mem_ids h, mem_ids_of_children h, tree.ancestors_child h, reaches]

theorem mem_spread_of_goal {i : NodeId} (hi : i ∈ m.ids) (h : goal i = true) :
    i ∈ m.spread link goal := by
  by_cases hr : i = root
  · rw [hr] at h ⊢
    exact tree.mem_spread_root.mpr h
  · obtain ⟨p, hp⟩ := tree.exists_parent hi hr
    exact (tree.mem_spread_child hp).mpr (.inl h)

theorem goal_above_of_mem_spread {i : NodeId} (h : i ∈ m.spread link goal) :
    goal i = true ∨ ∃ g ∈ m.ancestors i, goal g = true := by
  induction mem_ids_of_spread h using tree.down_induction with
  | top => exact .inl (tree.mem_spread_root.mp h)
  | child p c hc ih =>
    rcases (tree.mem_spread_child hc).mp h with h | ⟨-, h⟩
    · exact .inl h
    · right
      rcases ih h with hp | ⟨g, hg, hgoal⟩
      · exact ⟨p, tree.parent_mem_ancestors hc, hp⟩
      · exact ⟨g, (tree.mem_ancestors_child hc).mpr (.inr hg), hgoal⟩

theorem exists_unique_default {i : NodeId} {s : List NodeId} (hc : m.isCompound i = true)
    (h : ∀ c ∈ m.children i, c ∈ s ↔ m.isDefaultChild i c = true) :
    ∃! c, c ∈ m.children i ∧ c ∈ s := by
  obtain ⟨initial, hk⟩ := isCompound_iff.mp hc
  refine ⟨initial, ⟨tree.compound hk, ?_⟩, fun c hc => ?_⟩
  · exact (h _ (tree.compound hk)).mpr ((isDefaultChild_compound hk).mpr rfl)
  · exact (isDefaultChild_compound hk).mp ((h c hc.1).mp hc.2)

theorem mem_defaults_child {top p c : NodeId} (h : c ∈ m.children p) :
    c ∈ m.defaults top ↔ c = top ∨ (m.isDefaultChild p c = true ∧ p ∈ m.defaults top) := by
  rw [defaults_eq_spread, tree.mem_spread_child h, beq_iff_eq]

theorem legal_defaults_root : m.Legal (m.defaults root) := by
  have hchild : ∀ i ∈ m.defaults root, ∀ c ∈ m.children i,
      c ∈ m.defaults root ↔ m.isDefaultChild i c = true := by
    intro i hi c hc
    rw [tree.mem_defaults_child hc]
    simp [hi, tree.child_ne_root hc]
  refine ⟨fun i hi => mem_ids_of_spread hi, ?_, ?_, ?_, ?_⟩
  · exact tree.mem_spread_root.mpr (by simp)
  · intro p c hc hp
    rw [tree.parent_eq_some_iff] at hp
    rcases (tree.mem_defaults_child hp).mp hc with rfl | ⟨-, h⟩
    · exact absurd rfl (tree.child_ne_root hp)
    · exact h
  · exact fun i hi hc => tree.exists_unique_default hc (hchild i hi)
  · exact fun i hi hp c hc => (hchild i hi c hc).mpr (isDefaultChild_parallel hp)

theorem pairwise_ancestors {i : NodeId} (h : i ∈ m.ids) : (m.ancestors i).Pairwise (· > ·) := by
  induction h using tree.down_induction with
  | top =>
    rw [tree.ancestors_root]
    exact List.Pairwise.nil
  | child p c hc ih =>
    rw [tree.ancestors_child hc]
    exact List.pairwise_cons.mpr ⟨fun a ha => tree.lt_of_mem_ancestors ha, ih⟩

theorem mem_lineage {d t i : NodeId} (h : d ∈ m.ancestors t) :
    i ∈ m.lineage d t ↔ i = t ∨ (i ∈ m.ancestors t ∧ d ∈ m.ancestors i) := by
  obtain ⟨l, hl⟩ := tree.ancestors_split h
  have hpair := tree.pairwise_ancestors (mem_ids_of_ancestors h)
  rw [hl, List.pairwise_append] at hpair
  have habove : ∀ a ∈ l, a > d := fun a ha => hpair.2.2 a ha d List.mem_cons_self
  have htake : (m.ancestors t).takeWhile (· != d) = l := by
    rw [hl, List.takeWhile_append_of_pos (fun a ha => by simpa using Nat.ne_of_gt (habove a ha))]
    simp
  rw [lineage, htake, List.mem_cons]
  refine or_congr_right ⟨fun hi => ?_, fun ⟨hi, hd⟩ => ?_⟩
  · have hit : i ∈ m.ancestors t := hl ▸ List.mem_append_left _ hi
    refine ⟨hit, ?_⟩
    rcases tree.ancestors_comparable hit h with rfl | hid | hdi
    · exact absurd (habove _ hi) (Nat.lt_irrefl _)
    · exact absurd (habove _ hi) (Nat.lt_asymm (tree.lt_of_mem_ancestors hid))
    · exact hdi
  · rw [hl, List.mem_append, List.mem_cons] at hi
    rcases hi with hi | rfl | hi
    · exact hi
    · exact absurd hd (tree.not_mem_ancestors_self _)
    · exact absurd hd (tree.not_mem_ancestors_of_mem hi)

end IsTree

/-- Which child is entered with a node when `target` is entered from `domain`, the way apart. -/
def entryLink (m : Chart C E) (domain target id child : NodeId) : Bool :=
  if (m.lineage domain target).contains id && id != target then m.isParallel id
  else m.isDefaultChild id child

theorem entrySet_eq_spread (m : Chart C E) (domain target : NodeId) :
    m.entrySet domain target =
      m.spread (m.entryLink domain target) (m.lineage domain target).contains := rfl

/-- A set that can take the place of all that lies below a compound node. -/
structure Fills (m : Chart C E) (domain : NodeId) (entering : List NodeId) : Prop where
  below : ∀ i ∈ entering, domain ∈ m.ancestors i
  top : ∃! c, c ∈ m.children domain ∧ c ∈ entering
  parent : ∀ {p c}, c ∈ entering → c ∈ m.children p → p = domain ∨ p ∈ entering
  compound : ∀ i ∈ entering, m.isCompound i = true → ∃! c, c ∈ m.children i ∧ c ∈ entering
  parallel : ∀ i ∈ entering, m.isParallel i = true → ∀ c ∈ m.children i, c ∈ entering

namespace IsTree

variable (tree : m.IsTree)
include tree

theorem mem_entrySet_child {d t p c : NodeId} (hc : c ∈ m.children p) :
    c ∈ m.entrySet d t ↔
      c ∈ m.lineage d t ∨ (m.entryLink d t p c = true ∧ p ∈ m.entrySet d t) := by
  rw [entrySet_eq_spread, tree.mem_spread_child hc]
  simp

section

variable {d t : NodeId} (h : d ∈ m.ancestors t)
include h

theorem domain_above_lineage {i : NodeId} (hi : i ∈ m.lineage d t) : d ∈ m.ancestors i := by
  rcases (tree.mem_lineage h).mp hi with rfl | ⟨-, hd⟩
  · exact h
  · exact hd

theorem parent_mem_lineage {p c : NodeId} (hc : c ∈ m.lineage d t) (hp : c ∈ m.children p) :
    p = d ∨ (p ∈ m.lineage d t ∧ p ∈ m.ancestors t) := by
  have hd := tree.domain_above_lineage h hc
  rcases (tree.mem_ancestors_child hp).mp hd with rfl | hd
  · exact .inl rfl
  · right
    have hpc : p ∈ m.ancestors c := tree.parent_mem_ancestors hp
    have hpt : p ∈ m.ancestors t := by
      rcases (tree.mem_lineage h).mp hc with rfl | ⟨hct, -⟩
      · exact hpc
      · exact tree.ancestors_trans hpc hct
    exact ⟨(tree.mem_lineage h).mpr (.inr ⟨hpt, hd⟩), hpt⟩

theorem mem_entrySet_of_lineage {i : NodeId} (hi : i ∈ m.lineage d t) : i ∈ m.entrySet d t := by
  rw [entrySet_eq_spread]
  refine tree.mem_spread_of_goal (mem_ids_of_ancestors (tree.domain_above_lineage h hi)) ?_
  simpa using hi

theorem target_mem_entrySet : t ∈ m.entrySet d t :=
  tree.mem_entrySet_of_lineage h ((tree.mem_lineage h).mpr (.inl rfl))

theorem domain_above_entrySet {i : NodeId} (hi : i ∈ m.entrySet d t) : d ∈ m.ancestors i := by
  rw [entrySet_eq_spread] at hi
  rcases tree.goal_above_of_mem_spread hi with hi | ⟨g, hg, hgoal⟩
  · exact tree.domain_above_lineage h (by simpa using hi)
  · exact tree.ancestors_trans (tree.domain_above_lineage h (by simpa using hgoal)) hg

theorem domain_not_mem_entrySet : d ∉ m.entrySet d t :=
  fun hd => tree.not_mem_ancestors_self d (tree.domain_above_entrySet h hd)

theorem mem_entrySet_iff_default {i : NodeId} (hi : i ∈ m.entrySet d t)
    (hoff : i = t ∨ i ∉ m.lineage d t) {c : NodeId} (hc : c ∈ m.children i) :
    c ∈ m.entrySet d t ↔ m.isDefaultChild i c = true := by
  have hlink : m.entryLink d t i c = m.isDefaultChild i c := by
    rcases hoff with rfl | hoff <;> simp [entryLink, *]
  have hway : c ∉ m.lineage d t := by
    intro hmem
    rcases tree.parent_mem_lineage h hmem hc with rfl | ⟨hil, hit⟩
    · exact tree.domain_not_mem_entrySet h hi
    · rcases hoff with rfl | hoff
      · exact tree.not_mem_ancestors_self _ hit
      · exact hoff hil
  rw [tree.mem_entrySet_child hc, hlink]
  simp [hi, hway]

theorem exists_unique_toward {i : NodeId} (hi : i = d ∨ i ∈ m.lineage d t ∧ i ≠ t)
    (hp : m.isParallel i = false) : ∃! c, c ∈ m.children i ∧ c ∈ m.entrySet d t := by
  have hit : i ∈ m.ancestors t := by
    rcases hi with rfl | ⟨hl, hne⟩
    · exact h
    · exact ((tree.mem_lineage h).mp hl).resolve_left hne |>.1
  have hdc : ∀ c ∈ m.children i, d ∈ m.ancestors c := by
    intro c hc
    rw [tree.mem_ancestors_child hc]
    exact hi.imp Eq.symm fun hl => tree.domain_above_lineage h hl.1
  obtain ⟨c, hc, hct⟩ := tree.exists_child_above hit
  have hway : c ∈ m.lineage d t :=
    (tree.mem_lineage h).mpr (hct.imp_right fun hct => ⟨hct, hdc c hc⟩)
  refine ⟨c, ⟨hc, tree.mem_entrySet_of_lineage h hway⟩, fun c' ⟨hc', hmem⟩ => ?_⟩
  rcases (tree.mem_entrySet_child hc').mp hmem with hmem | ⟨hlink, hmem⟩
  · exact tree.child_above_unique hc' hc
      (((tree.mem_lineage h).mp hmem).imp_right And.left) hct
  · rcases hi with rfl | ⟨hl, hne⟩
    · exact absurd hmem (tree.domain_not_mem_entrySet h)
    · simp [entryLink, hl, hne, hp] at hlink

/-- Entering a node from a domain above it fills the domain. -/
theorem entrySet_fills (hd : m.isCompound d = true) : m.Fills d (m.entrySet d t) where
  below _ hi := tree.domain_above_entrySet h hi
  top := tree.exists_unique_toward h (.inl rfl) (not_isParallel_of_isCompound hd)
  parent := by
    intro p c hc hp
    rcases (tree.mem_entrySet_child hp).mp hc with hc | ⟨-, hp⟩
    · exact (tree.parent_mem_lineage h hc hp).imp_right
        fun hl => tree.mem_entrySet_of_lineage h hl.1
    · exact .inr hp
  compound := by
    intro i hi hc
    by_cases hway : i ∈ m.lineage d t ∧ i ≠ t
    · exact tree.exists_unique_toward h (.inr hway) (not_isParallel_of_isCompound hc)
    · have hoff : i = t ∨ i ∉ m.lineage d t := by
        by_cases hit : i = t
        · exact .inl hit
        · exact .inr fun hl => hway ⟨hl, hit⟩
      exact tree.exists_unique_default hc fun c hc => tree.mem_entrySet_iff_default h hi hoff hc
  parallel := by
    intro i hi hp c hc
    refine (tree.mem_entrySet_child hc).mpr (.inr ⟨?_, hi⟩)
    unfold entryLink
    split
    · exact hp
    · exact isDefaultChild_parallel hp

end

theorem outside_root_iff {active : List NodeId} (legal : m.Legal active) {i : NodeId} :
    i ∈ active ∧ root ∉ m.ancestors i ↔ i = root := by
  constructor
  · rintro ⟨hi, hn⟩
    by_contra hne
    exact hn (tree.root_mem_ancestors (legal.nodes i hi) hne)
  · rintro rfl
    exact ⟨legal.rooted, by simp [tree.ancestors_root]⟩

section

variable {active entering filled : List NodeId} {d : NodeId} (fills : m.Fills d entering)
  (hfilled : ∀ i, i ∈ filled ↔ (i ∈ active ∧ d ∉ m.ancestors i) ∨ i ∈ entering)

include fills hfilled

omit tree in
theorem mem_filled_outside {i : NodeId} (hi : d ∉ m.ancestors i) : i ∈ filled ↔ i ∈ active := by
  rw [hfilled]
  constructor
  · rintro (⟨ha, -⟩ | he)
    · exact ha
    · exact absurd (fills.below i he) hi
  · intro ha
    exact .inl ⟨ha, hi⟩

omit fills in
theorem mem_filled_child_inside {i c : NodeId} (hi : i = d ∨ d ∈ m.ancestors i)
    (hc : c ∈ m.children i) : c ∈ filled ↔ c ∈ entering := by
  have hdc : d ∈ m.ancestors c := (tree.mem_ancestors_child hc).mpr (hi.imp_left Eq.symm)
  rw [hfilled]
  exact ⟨fun h => h.elim (fun h => absurd hdc h.2) id, .inr⟩

theorem mem_filled_child_outside {i c : NodeId} (hi : ¬(i = d ∨ d ∈ m.ancestors i))
    (hc : c ∈ m.children i) : c ∈ filled ↔ c ∈ active := by
  refine mem_filled_outside fills hfilled fun hdc => hi ?_
  exact ((tree.mem_ancestors_child hc).mp hdc).imp_left Eq.symm

omit tree fills in
theorem cases_filled {i : NodeId} (hi : i ∈ filled) :
    i = d ∨ i ∈ entering ∨ (i ∈ active ∧ ¬(i = d ∨ d ∈ m.ancestors i)) := by
  by_cases hid : i = d
  · exact .inl hid
  · rcases (hfilled i).mp hi with ⟨ha, hn⟩ | he
    · exact .inr (.inr ⟨ha, by simp [hid, hn]⟩)
    · exact .inr (.inl he)

/-- A legal set stays legal when what is active below a compound node is filled anew. -/
theorem legal_fill (legal : m.Legal active) (hd : d ∈ active) (hc : m.isCompound d = true) :
    m.Legal filled where
  nodes := by
    intro i hi
    rcases (hfilled i).mp hi with ⟨ha, -⟩ | he
    · exact legal.nodes i ha
    · exact mem_ids_of_ancestors (fills.below i he)
  rooted := (mem_filled_outside fills hfilled (by simp [tree.ancestors_root])).mpr legal.rooted
  parent := by
    intro p c hcf hp
    have hchild := tree.parent_eq_some_iff.mp hp
    rcases (hfilled c).mp hcf with ⟨ha, hn⟩ | he
    · have hpn : d ∉ m.ancestors p := fun h => hn ((tree.mem_ancestors_child hchild).mpr (.inr h))
      exact (mem_filled_outside fills hfilled hpn).mpr (legal.parent ha hp)
    · rcases fills.parent he hchild with rfl | hpe
      · have hself := tree.not_mem_ancestors_self p
        exact (mem_filled_outside fills hfilled hself).mpr hd
      · exact (hfilled p).mpr (.inr hpe)
  compound := by
    intro i hi hic
    rcases cases_filled hfilled hi with rfl | he | ⟨ha, hn⟩
    · have hmem := fun c => tree.mem_filled_child_inside hfilled (c := c) (.inl (Eq.refl i))
      exact (existsUnique_congr fun c => and_congr_right (hmem c)).mpr fills.top
    · have hmem := fun c =>
        tree.mem_filled_child_inside hfilled (c := c) (.inr (fills.below i he))
      exact (existsUnique_congr fun c => and_congr_right (hmem c)).mpr (fills.compound i he hic)
    · have hmem := fun c => tree.mem_filled_child_outside fills hfilled (c := c) hn
      exact (existsUnique_congr fun c => and_congr_right (hmem c)).mpr (legal.compound i ha hic)
  parallel := by
    intro i hi hip c hci
    rcases cases_filled hfilled hi with rfl | he | ⟨ha, hn⟩
    · rw [not_isParallel_of_isCompound hc] at hip
      exact absurd hip Bool.false_ne_true
    · exact (tree.mem_filled_child_inside hfilled (.inr (fills.below i he)) hci).mpr
        (fills.parallel i he hip c hci)
    · exact (tree.mem_filled_child_outside fills hfilled hn hci).mpr
        (legal.parallel i ha hip c hci)

end

end IsTree
end Statechart.Chart
