import Mathlib.Data.Finset.Max
import Statechart.Proofs.Consistency
import Statechart.Proofs.Delays
import Statechart.Proofs.NodePaths
import Statechart.Proofs.Value

/-! Which active nodes the value of a configuration tells. A parallel node is written to once for each
region, in the order of the paths, and an atomic region is written as text in the place of all that
stands there. So what is active inside the regions written before is lost. -/
namespace Statechart
namespace Chart

variable {C E : Type} {m : Chart C E}

/-- Beside the node stands an atomic one whose text takes the place of all that is written for nodes
below the first. -/
def Overwritten (m : Chart C E) (b : NodeId) : Prop :=
  ∃ p a, m.isParallel p = true ∧ b ∈ m.children p ∧ a ∈ m.children p ∧ m.isAtomic a = true ∧
    (m.pathAt b).text ++ "." < (m.pathAt a).text

/-- The node lies inside a region that is written over. -/
def Veiled (m : Chart C E) (i : NodeId) : Prop := ∃ b ∈ m.ancestors i, m.Overwritten b

/-- What is written for the second node is written over what is written for the first. -/
def Over (m : Chart C E) (i j : NodeId) : Prop :=
  m.pathAt i < m.pathAt j ∧ ∃ p q, i ∈ m.children p ∧ j ∈ m.children q ∧
    (p = q ∨ p ∈ m.ancestors q ∨ q ∈ m.ancestors p)

def Lasting (m : Chart C E) (active : List NodeId) (i : NodeId) : Prop :=
  i ∈ active ∧ m.isAtomic i = true ∧ ∀ j ∈ active, m.isAtomic j = true → ¬m.Over i j

/-- Configurations of the chart that stand for different sets have different values. -/
def ValuesDiffer (m : Chart C E) : Prop :=
  ∀ c c', m.Stands c → m.Stands c' → c.value = c'.value → c = c'

namespace IsTree

variable (tree : m.IsTree)
include tree

/-- Two leaves meet when the nodes right above them lie on one line. -/
theorem meets_iff {p q i j : NodeId} (hi : i ∈ m.children p) (hj : j ∈ m.children q) :
    Json.Meets (m.pathAt i).segments (m.pathAt j).segments ↔
      p = q ∨ p ∈ m.ancestors q ∨ q ∈ m.ancestors p := by
  obtain ⟨k, hk, -⟩ := tree.segments_child hi
  obtain ⟨l, hl, -⟩ := tree.segments_child hj
  have hp := mem_ids_of_children hi
  have hq := mem_ids_of_children hj
  rw [Json.Meets, hk, hl, List.dropLast_concat, List.dropLast_concat,
    tree.segments_prefix_iff hp hq, tree.segments_prefix_iff hq hp]
  simp only [ne_eq, List.append_eq_nil_iff, List.cons_ne_self, and_false, not_false_eq_true,
    true_and, @eq_comm _ q p]
  tauto

theorem exists_topmost {i : NodeId} (h : m.Veiled i) :
    ∃ b ∈ m.ancestors i, m.Overwritten b ∧ ¬m.Veiled b := by
  obtain ⟨b, hb, hover⟩ := h
  induction b using Nat.strongRecOn with
  | ind b ih =>
    by_cases hv : m.Veiled b
    · obtain ⟨d, hd, hdover⟩ := hv
      exact ih d (tree.lt_of_mem_ancestors hd) (tree.ancestors_trans hd hb) hdover
    · exact ⟨b, hb, hover, hv⟩

theorem eq_of_children {p q c : NodeId} (hp : c ∈ m.children p) (hq : c ∈ m.children q) : p = q :=
  Option.some.inj ((tree.parent_child hp).symm.trans (tree.parent_child hq))

theorem not_isAtomic_of_ancestors {b i : NodeId} (h : b ∈ m.ancestors i) :
    m.isAtomic b ≠ true := by
  intro hb
  obtain ⟨c, hc, -⟩ := tree.exists_child_above h
  simp [tree.atomic hb] at hc

theorem parent_not_veiled {p c : NodeId} (hc : c ∈ m.children p) (h : ¬m.Veiled c) :
    ¬m.Veiled p ∧ ¬m.Overwritten p := by
  constructor
  · rintro ⟨b, hb, hover⟩
    exact h ⟨b, (tree.mem_ancestors_child hc).mpr (.inr hb), hover⟩
  · intro hover
    exact h ⟨p, tree.parent_mem_ancestors hc, hover⟩

theorem child_not_veiled {p c : NodeId} (hc : c ∈ m.children p) (hv : ¬m.Veiled p)
    (ho : ¬m.Overwritten p) : ¬m.Veiled c := by
  rintro ⟨b, hb, hover⟩
  rcases (tree.mem_ancestors_child hc).mp hb with rfl | hb
  · exact ho hover
  · exact hv ⟨b, hb, hover⟩

section

variable {active : List NodeId} (legal : m.Legal active)
include legal

theorem isParallel_of_two {p b j : NodeId} (hb : b ∈ m.children p) (hj : j ∈ m.children p)
    (hba : b ∈ active) (hja : j ∈ active) (hne : b ≠ j) : m.isParallel p = true := by
  rcases kind_cases (mem_ids_of_children hb) with ha | hc | hp
  · simp [tree.atomic ha] at hb
  · have hpa := legal.parent hba (tree.parent_child hb)
    obtain ⟨c, -, honly⟩ := legal.compound p hpa hc
    exact absurd ((honly b ⟨hb, hba⟩).trans (honly j ⟨hj, hja⟩).symm) hne
  · exact hp

theorem exists_over_of_veiled {i : NodeId} (hi : i ∈ active) (h : m.Veiled i) :
    ∃ a ∈ active, m.isAtomic a = true ∧ ¬m.Veiled a ∧ m.Over i a ∧
      ∀ l, m.Over l i → m.Over l a := by
  obtain ⟨b, hb, ⟨p, a, hp, hbp, hap, hatomic, hlt⟩, hv⟩ := tree.exists_topmost h
  have hpa := legal.parent (tree.mem_of_ancestors legal hi hb) (tree.parent_child hbp)
  have hia := (tree.lt_sibling_iff hap hbp hb).mpr hlt
  obtain ⟨q, hq⟩ := tree.exists_parent (legal.nodes i hi) (tree.ne_root_of_mem_ancestors hb)
  have hpq : p ∈ m.ancestors q :=
    tree.parent_above hbp (((tree.mem_ancestors_child hq).mp hb).imp_left Eq.symm)
  obtain ⟨hvp, hop⟩ := tree.parent_not_veiled hbp hv
  refine ⟨a, legal.parallel p hpa hp a hap, hatomic, tree.child_not_veiled hap hvp hop,
    ⟨hia, q, p, hq, hap, .inr (.inr hpq)⟩, ?_⟩
  rintro l ⟨hli, r, q', hr, hq', hline⟩
  obtain rfl := tree.eq_of_children hq hq'
  refine ⟨String.lt_trans hli hia, r, p, hr, hap, ?_⟩
  rcases hline with rfl | hline | hline
  · exact .inr (.inr hpq)
  · exact tree.ancestors_comparable hline hpq
  · exact .inr (.inr (tree.ancestors_trans hpq hline))

theorem veiled_of_over_above {p q i j : NodeId} (hi : i ∈ active) (hj : j ∈ active)
    (hatomic : m.isAtomic j = true) (hlt : m.pathAt i < m.pathAt j) (hip : i ∈ m.children p)
    (hjq : j ∈ m.children q) (hqp : q ∈ m.ancestors p) : m.Veiled i := by
  obtain ⟨b, hb, hbp⟩ := tree.exists_child_above hqp
  have hbi : b ∈ m.ancestors i := (tree.mem_ancestors_child hip).mpr hbp
  have hne : b ≠ j := by
    rintro rfl
    exact tree.not_isAtomic_of_ancestors hbi hatomic
  have hpar := tree.isParallel_of_two legal hb hjq (tree.mem_of_ancestors legal hi hbi) hj hne
  exact ⟨b, hbi, q, j, hpar, hb, hjq, hatomic, (tree.lt_sibling_iff hjq hb hbi).mp hlt⟩

theorem lasting_of_compound {p i : NodeId} (hi : i ∈ active) (hatomic : m.isAtomic i = true)
    (hip : i ∈ m.children p) (hp : m.isParallel p ≠ true) (hv : ¬m.Veiled i) :
    m.Lasting active i := by
  refine ⟨hi, hatomic, ?_⟩
  rintro j hj hja ⟨hlt, p', q, hip', hjq, hline⟩
  obtain rfl := tree.eq_of_children hip hip'
  have hne : i ≠ j := by
    rintro rfl
    exact String.lt_irrefl _ hlt
  rcases hline with rfl | hpq | hqp
  · exact hp (tree.isParallel_of_two legal hip hjq hi hj hne)
  · obtain ⟨d, hd, hdq⟩ := tree.exists_child_above hpq
    have hdj : d ∈ m.ancestors j := (tree.mem_ancestors_child hjq).mpr hdq
    have hdi : i ≠ d := by
      rintro rfl
      exact tree.not_isAtomic_of_ancestors hdj hatomic
    exact hp (tree.isParallel_of_two legal hip hd hi (tree.mem_of_ancestors legal hj hdj) hdi)
  · exact hv (tree.veiled_of_over_above legal hi hj hja hlt hip hjq hqp)

omit tree legal in
theorem exists_last_atomic {i c : NodeId} (hc : c ∈ m.children i) (ha : m.isAtomic c = true) :
    ∃ a ∈ m.children i, m.isAtomic a = true ∧
      ∀ a' ∈ m.children i, m.isAtomic a' = true → ¬m.pathAt a < m.pathAt a' := by
  obtain ⟨a, hmem, hlast⟩ := Finset.exists_max_image
    ((m.children i).filter (m.isAtomic ·)).toFinset (fun a => (m.pathAt a).text)
    ⟨c, by simp [hc, ha]⟩
  simp only [List.mem_toFinset, List.mem_filter] at hmem hlast
  exact ⟨a, hmem.1, hmem.2, fun a' h ha' => String.not_lt.mpr (hlast a' ⟨h, ha'⟩)⟩

theorem exists_lasting_child {i : NodeId} (hi : i ∈ active) (hp : m.isParallel i = true)
    (hv : ¬m.Veiled i) (ho : ¬m.Overwritten i)
    (hall : ∀ b ∈ m.children i, m.isAtomic b = true ∨ m.Overwritten b) :
    ∃ a ∈ m.children i, m.Lasting active a := by
  have hsome : ∃ c ∈ m.children i, m.isAtomic c = true := by
    obtain ⟨c, hc⟩ := List.exists_mem_of_ne_nil _ (tree.parallel hp)
    rcases hall c hc with ha | ⟨q, a, -, hcq, haq, hatomic, -⟩
    · exact ⟨c, hc, ha⟩
    · exact ⟨a, tree.eq_of_children hcq hc ▸ haq, hatomic⟩
  obtain ⟨c, hc, hca⟩ := hsome
  obtain ⟨a, ha, hatomic, hlast⟩ := exists_last_atomic hc hca
  have hact : a ∈ active := legal.parallel i hi hp a ha
  refine ⟨a, ha, hact, hatomic, ?_⟩
  rintro j hj hja ⟨hlt, i', q, hai', hjq, hline⟩
  obtain rfl := tree.eq_of_children ha hai'
  rcases hline with rfl | hiq | hqi
  · exact hlast j hjq hja hlt
  · obtain ⟨d, hd, hdq⟩ := tree.exists_child_above hiq
    have hdj : d ∈ m.ancestors j := (tree.mem_ancestors_child hjq).mpr hdq
    -- the region below which the other leaf lies gives way to a text that is not the last
    obtain ⟨i', a', -, hdi', hai', hatomic', hover⟩ :=
      (hall d hd).resolve_left (tree.not_isAtomic_of_ancestors hdj)
    obtain rfl := tree.eq_of_children hd hdi'
    have hja' := (tree.lt_sibling_iff hai' hd hdj).mpr hover
    exact hlast a' hai' hatomic' (String.lt_trans hlt hja')
  · exact tree.child_not_veiled ha hv ho
      (tree.veiled_of_over_above legal hact hj hja hlt ha hjq hqi)

/-- At or below a node that is neither written over nor veiled a leaf lasts, unless the node is an
atomic region itself. -/
theorem exists_lasting {i : NodeId} (hi : i ∈ active) (hv : ¬m.Veiled i) (ho : ¬m.Overwritten i) :
    (∃ l, m.Lasting active l ∧ (l = i ∨ i ∈ m.ancestors l)) ∨
      m.isAtomic i = true ∧ ∃ p, m.isParallel p = true ∧ i ∈ m.children p := by
  induction legal.nodes i hi using tree.up_induction with
  | node i hids ih =>
    rcases kind_cases hids with ha | hc | hp
    · -- an atomic node
      have hne : i ≠ root := by
        rintro rfl
        have := tree.isCompound_root
        simp [isCompound_iff, isAtomic_iff.mp ha] at this
      obtain ⟨p, hip⟩ := tree.exists_parent hids hne
      by_cases hp : m.isParallel p = true
      · exact .inr ⟨ha, p, hp, hip⟩
      · exact .inl ⟨i, tree.lasting_of_compound legal hi ha hip hp hv, .inl rfl⟩
    · -- a compound node
      have hip : m.isParallel i = false := not_isParallel_of_isCompound hc
      obtain ⟨c, ⟨hci, hact⟩, -⟩ := legal.compound i hi hc
      have hnotpar : ∀ {q}, c ∈ m.children q → m.isParallel q ≠ true := by
        intro q hq
        rw [← tree.eq_of_children hci hq, hip]
        exact Bool.false_ne_true
      have hco : ¬m.Overwritten c := fun ⟨q, _, hq, hcq, _⟩ => hnotpar hcq hq
      have hcv := tree.child_not_veiled hci hv ho
      rcases ih c hci hact hcv hco with ⟨l, hl, hlc⟩ | ⟨-, q, hq, hcq⟩
      · exact .inl ⟨l, hl, .inr (tree.parent_above hci hlc)⟩
      · exact absurd hq (hnotpar hcq)
    · -- a parallel node
      by_cases hall : ∀ b ∈ m.children i, m.isAtomic b = true ∨ m.Overwritten b
      · obtain ⟨a, ha, hlasts⟩ := tree.exists_lasting_child legal hi hp hv ho hall
        exact .inl ⟨a, hlasts, .inr (tree.parent_mem_ancestors ha)⟩
      · push Not at hall
        obtain ⟨b, hb, hba, hbo⟩ := hall
        have hact := legal.parallel i hi hp b hb
        rcases ih b hb hact (tree.child_not_veiled hb hv ho) hbo with ⟨l, hl, hlb⟩ | ⟨ha, -⟩
        · exact .inl ⟨l, hl, .inr (tree.parent_above hb hlb)⟩
        · exact absurd ha hba

end

/-- Legal sets that keep the same leaves have the same nodes outside all veils. -/
theorem subset_of_lasting {active active' : List NodeId} (legal : m.Legal active)
    (legal' : m.Legal active') (h : ∀ l, m.Lasting active l → l ∈ active') {i : NodeId}
    (hi : i ∈ active) (hv : ¬m.Veiled i) : i ∈ active' := by
  induction hi using tree.legal_induction legal with
  | top => exact legal'.rooted
  | child p c hc hi ih =>
    obtain ⟨hvp, hop⟩ := tree.parent_not_veiled hc hv
    have hp := ih hvp
    by_cases hpar : m.isParallel p = true
    · exact legal'.parallel p hp hpar c hc
    · have hnotpar : ∀ {q}, c ∈ m.children q → m.isParallel q ≠ true :=
        fun hq => tree.eq_of_children hc hq ▸ hpar
      have hco : ¬m.Overwritten c := fun ⟨q, _, hq, hcq, _⟩ => hnotpar hcq hq
      rcases tree.exists_lasting legal hi hv hco with ⟨l, hl, hlc⟩ | ⟨-, q, hq, hcq⟩
      · rcases hlc with rfl | hcl
        · exact h l hl
        · exact tree.mem_of_ancestors legal' (h l hl) hcl
      · exact absurd hq (hnotpar hcq)

/-- Legal sets with the same nodes outside all veils keep the same leaves. -/
theorem lasting_of_agree {active active' : List NodeId} (legal : m.Legal active)
    (legal' : m.Legal active') (h : ∀ i, ¬m.Veiled i → (i ∈ active ↔ i ∈ active')) {l : NodeId}
    (hl : m.Lasting active l) : m.Lasting active' l := by
  obtain ⟨hact, hatomic, hlasts⟩ := hl
  have hv : ¬m.Veiled l := by
    intro hv
    obtain ⟨a, ha, haa, -, hover, -⟩ := tree.exists_over_of_veiled legal hact hv
    exact hlasts a ha haa hover
  refine ⟨(h l hv).mp hact, hatomic, fun j hj hja hover => ?_⟩
  by_cases hvj : m.Veiled j
  · obtain ⟨a, ha, haa, hva, -, hall⟩ := tree.exists_over_of_veiled legal' hj hvj
    exact hlasts a ((h a hva).mpr ha) haa (hall l hover)
  · exact hlasts j ((h j hvj).mpr hj) hja hover

section

variable {active : List NodeId} {c : Configuration} (legal : m.Legal active)
  (hleaves : ∀ p, p ∈ c.leaves ↔
    ∃ i ∈ active, ∃ n, m.node? i = some n ∧ n.isAtomic = true ∧ n.path = p)
include legal hleaves

theorem isActive_iff_mem {i : NodeId} : m.isActive c i = true ↔ i ∈ active := by
  have spans := spans_of_leaves legal hleaves
  have known : ∀ p ∈ c.leaves, ∃ i n, m.node? i = some n ∧ n.path = p := by
    intro p hp
    obtain ⟨i, -, n, hn, hpath⟩ := spans.2.1 p hp
    exact ⟨i, n, hn, hpath⟩
  obtain ⟨active', h⟩ := tree.exists_activeOf known
  simpa [isActive, h] using tree.mem_activeOf_spans spans h i

omit tree legal in
theorem mem_leaves_iff {p : Path} :
    p ∈ c.leaves ↔ ∃ i ∈ active, m.isAtomic i = true ∧ m.pathAt i = p := by
  rw [hleaves]
  refine exists_congr fun i => and_congr_right fun _ => ⟨?_, ?_⟩
  · rintro ⟨n, hn, ha, rfl⟩
    exact ⟨by simp [isAtomic, hn, ha], by simp [pathAt, hn]⟩
  · rintro ⟨ha, rfl⟩
    obtain ⟨n, hn⟩ := mem_ids.mp (mem_ids_of_kind (isAtomic_iff.mp ha))
    exact ⟨n, hn, by simpa [isAtomic, hn] using ha, by simp [pathAt, hn]⟩

omit legal in
theorem keeps_iff {p : Path} : c.Keeps p ↔ ∃ i, m.Lasting active i ∧ m.pathAt i = p := by
  have hparent : ∀ {i}, m.isAtomic i = true → ∃ q, i ∈ m.children q := by
    intro i ha
    refine tree.exists_parent (mem_ids_of_kind (isAtomic_iff.mp ha)) ?_
    rintro rfl
    have := tree.isCompound_root
    simp [isCompound_iff, isAtomic_iff.mp ha] at this
  have hover : ∀ {i j}, m.isAtomic i = true → m.isAtomic j = true → (m.Over i j ↔
      m.pathAt i < m.pathAt j ∧
        Json.Meets (m.pathAt i).segments (m.pathAt j).segments) := by
    intro i j hi hj
    obtain ⟨q, hq⟩ := hparent hi
    obtain ⟨r, hr⟩ := hparent hj
    rw [tree.meets_iff hq hr]
    refine and_congr_right fun _ => ⟨?_, fun h => ⟨q, r, hq, hr, h⟩⟩
    rintro ⟨q', r', hq', hr', h⟩
    rwa [tree.eq_of_children hq hq', tree.eq_of_children hr hr']
  constructor
  · rintro ⟨hp, -, hlasts⟩
    obtain ⟨i, hi, ha, rfl⟩ := (mem_leaves_iff hleaves).mp hp
    refine ⟨i, ⟨hi, ha, fun j hj hja h => ?_⟩, rfl⟩
    obtain ⟨hlt, hmeets⟩ := (hover ha hja).mp h
    exact hlasts _ ((mem_leaves_iff hleaves).mpr ⟨j, hj, hja, rfl⟩) hlt hmeets
  · rintro ⟨i, ⟨hi, ha, hlasts⟩, rfl⟩
    refine ⟨(mem_leaves_iff hleaves).mpr ⟨i, hi, ha, rfl⟩, ?_, fun q hq hlt hmeets => ?_⟩
    · obtain ⟨q, hq⟩ := hparent ha
      obtain ⟨key, hkey, -⟩ := tree.segments_child hq
      simp [hkey]
    · obtain ⟨j, hj, hja, rfl⟩ := (mem_leaves_iff hleaves).mp hq
      exact hlasts j hj hja ((hover ha hja).mpr ⟨hlt, hmeets⟩)

theorem value_eq_iff_agree {active' : List NodeId} {c' : Configuration} (legal' : m.Legal active')
    (hleaves' : ∀ p, p ∈ c'.leaves ↔
      ∃ i ∈ active', ∃ n, m.node? i = some n ∧ n.isAtomic = true ∧ n.path = p) :
    c.value = c'.value ↔ ∀ i, ¬m.Veiled i → (i ∈ active ↔ i ∈ active') := by
  rw [Configuration.value_eq_iff]
  simp only [tree.keeps_iff hleaves, tree.keeps_iff hleaves']
  constructor
  · intro h i hv
    have hsame : ∀ l, m.Lasting active l ↔ m.Lasting active' l := by
      intro l
      constructor
      · intro hl
        obtain ⟨-, ⟨l', hl', rfl⟩, hsegments⟩ := (h _).mp ⟨_, ⟨l, hl, rfl⟩, rfl⟩
        exact tree.segments_inj (legal'.nodes _ hl'.1) (legal.nodes _ hl.1) hsegments ▸ hl'
      · intro hl
        obtain ⟨-, ⟨l', hl', rfl⟩, hsegments⟩ := (h _).mpr ⟨_, ⟨l, hl, rfl⟩, rfl⟩
        exact tree.segments_inj (legal.nodes _ hl'.1) (legal'.nodes _ hl.1) hsegments ▸ hl'
    exact ⟨fun hi => tree.subset_of_lasting legal legal' (fun l hl => ((hsame l).mp hl).1) hi hv,
      fun hi => tree.subset_of_lasting legal' legal (fun l hl => ((hsame l).mpr hl).1) hi hv⟩
  · intro h ks
    have hsame : ∀ l, m.Lasting active l ↔ m.Lasting active' l := fun l =>
      ⟨tree.lasting_of_agree legal legal' h,
        tree.lasting_of_agree legal' legal fun i hv => (h i hv).symm⟩
    simp only [hsame]

end

theorem subset_of_agree {active active' : List NodeId} (legal : m.Legal active)
    (legal' : m.Legal active') (h : ∀ i, ¬m.Veiled i → i ∈ active → i ∈ active')
    (only : ∀ d, m.isCompound d = true → (∃ c ∈ m.children d, m.Veiled c) →
      (m.children d).length = 1) {i : NodeId} (hi : i ∈ active) : i ∈ active' := by
  induction hi using tree.legal_induction legal with
  | top => exact legal'.rooted
  | child p c hc hi hp =>
    rcases kind_cases (mem_ids_of_children hc) with ha | hcomp | hpar
    · simp [tree.atomic ha] at hc
    · by_cases hv : m.Veiled c
      · obtain ⟨only, hsingle⟩ := List.length_eq_one_iff.mp (only p hcomp ⟨c, hc, hv⟩)
        obtain ⟨c', ⟨hc', hact⟩, -⟩ := legal'.compound p hp hcomp
        rw [hsingle, List.mem_singleton] at hc hc'
        rw [hc, ← hc']
        exact hact
      · exact h c hv hi
    · exact legal'.parallel p hp hpar c hc

theorem exists_legal_mem {i : NodeId} (h : i ∈ m.ids) : ∃ active, m.Legal active ∧ i ∈ active := by
  by_cases hne : i = root
  · exact ⟨_, tree.legal_defaults_root, hne ▸ tree.legal_defaults_root.rooted⟩
  · refine ⟨_, tree.legal_resting h hne, List.mem_filter.mpr ⟨h, ?_⟩⟩
    have hmem := tree.target_mem_entrySet (tree.root_mem_ancestors h hne)
    simp [hmem]

/-- Which child of a veiled compound node is active does not matter to what is outside all veils. -/
theorem exists_agree {d c c' : NodeId} (hd : m.isCompound d = true) (hc : c ∈ m.children d)
    (hc' : c' ∈ m.children d) (hv : m.Veiled c) :
    ∃ active active', m.Legal active ∧ m.Legal active' ∧ c ∈ active ∧ c' ∈ active' ∧
      ∀ i, ¬m.Veiled i → (i ∈ active ↔ i ∈ active') := by
  obtain ⟨start, legal, hmem⟩ := tree.exists_legal_mem (mem_ids_of_children hc)
  have habove : ∀ {t}, t ∈ m.children d → d ∈ m.ancestors t :=
    fun ht => tree.parent_mem_ancestors ht
  have hfilled : ∀ {t}, t ∈ m.children d → ∀ i,
      i ∈ start.filter (!m.isAncestor d ·) ++ m.entrySet d t ↔
        (i ∈ start ∧ d ∉ m.ancestors i) ∨ i ∈ m.entrySet d t := by
    intro t ht i
    simp [isAncestor]
  have fills : ∀ {t}, t ∈ m.children d → m.Fills d (m.entrySet d t) :=
    fun ht => tree.entrySet_fills (habove ht) hd
  have houtside : ∀ {t}, t ∈ m.children d → ∀ i, ¬m.Veiled i →
      (i ∈ start.filter (!m.isAncestor d ·) ++ m.entrySet d t ↔ i ∈ start) := by
    intro t ht i hvi
    refine mem_filled_outside (fills ht) (hfilled ht) fun hdi => hvi ?_
    obtain ⟨b, hb, hover⟩ := hv
    rcases (tree.mem_ancestors_child hc).mp hb with rfl | hb
    · exact ⟨b, hdi, hover⟩
    · exact ⟨b, tree.ancestors_trans hb hdi, hover⟩
  exact ⟨_, _, tree.legal_fill (fills hc) (hfilled hc) legal hmem hd,
    tree.legal_fill (fills hc') (hfilled hc') legal hmem hd,
    (hfilled hc c).mpr (.inr (tree.target_mem_entrySet (habove hc))),
    (hfilled hc' c').mpr (.inr (tree.target_mem_entrySet (habove hc'))),
    fun i hvi => (houtside hc i hvi).trans (houtside hc' i hvi).symm⟩

theorem valuesDiffer_iff : m.ValuesDiffer ↔ ∀ d, m.isCompound d = true →
    (∃ c ∈ m.children d, m.Veiled c) → (m.children d).length = 1 := by
  constructor
  · rintro differ d hd ⟨c, hc, hv⟩
    refine (length_eq_one_iff_of_nodup (tree.nodup_children d)).mpr ⟨c, hc, fun c' hc' => ?_⟩
    obtain ⟨active, active', legal, legal', hact, hact', hagree⟩ :=
      tree.exists_agree hd hc hc' hv
    have hleaves : ∀ p, p ∈ (m.configurationOf active).leaves ↔ _ := fun _ => mem_configurationOf
    have hleaves' : ∀ p, p ∈ (m.configurationOf active').leaves ↔ _ := fun _ => mem_configurationOf
    have hvalue := (tree.value_eq_iff_agree legal hleaves legal' hleaves').mpr hagree
    have hsame := differ _ _ ⟨active, legal, hleaves⟩ ⟨active', legal', hleaves'⟩ hvalue
    have hc'act : c' ∈ active := by
      rw [← tree.isActive_iff_mem legal hleaves, hsame]
      exact (tree.isActive_iff_mem legal' hleaves').mpr hact'
    have hda := legal.parent hact (tree.parent_child hc)
    obtain ⟨t, -, honly⟩ := legal.compound d hda hd
    exact (honly c' ⟨hc', hc'act⟩).trans (honly c ⟨hc, hact⟩).symm
  · rintro only c c' ⟨active, legal, hleaves⟩ ⟨active', legal', hleaves'⟩ hvalue
    have hagree := (tree.value_eq_iff_agree legal hleaves legal' hleaves').mp hvalue
    have hsame : ∀ i, i ∈ active ↔ i ∈ active' := fun i =>
      ⟨tree.subset_of_agree legal legal' (fun i hv => (hagree i hv).mp) only,
        tree.subset_of_agree legal' legal (fun i hv => (hagree i hv).mpr) only⟩
    refine Configuration.eq_of_same_leaves fun p => ?_
    rw [hleaves, hleaves']
    simp only [hsame]

end IsTree

/-- The value of a configuration tells what is active outside all veils, and no more. So it tells two
configurations apart in the charts in which no compound node has a choice of veiled children, and in
no others. -/
theorem value_tells {spec : ChartSpec C E} (built : spec.build = .ok m) :
    (∀ c c', m.Stands c → m.Stands c' → (c.value = c'.value ↔
      ∀ i, ¬m.Veiled i → m.isActive c i = m.isActive c' i)) ∧
    (m.ValuesDiffer ↔ ∀ d, m.isCompound d = true →
      (∃ c ∈ m.children d, m.Veiled c) → (m.children d).length = 1) := by
  have tree := ChartSpec.isTree_of_build built
  refine ⟨?_, tree.valuesDiffer_iff⟩
  rintro c c' ⟨active, legal, hleaves⟩ ⟨active', legal', hleaves'⟩
  rw [tree.value_eq_iff_agree legal hleaves legal' hleaves']
  refine forall_congr' fun i => imp_congr_right fun _ => ?_
  rw [Bool.eq_iff_iff, tree.isActive_iff_mem legal hleaves, tree.isActive_iff_mem legal' hleaves']

end Chart

theorem relay_values_differ : relay.chart.ValuesDiffer := by
  refine (Chart.value_tells relay_built).2.mpr ?_
  rintro d - ⟨c, -, b, -, p, a, hp, -, hap, hatomic, -⟩
  have hnone : ∀ p ∈ relay.chart.ids, relay.chart.isParallel p = true →
      ∀ a ∈ relay.chart.children p, relay.chart.isAtomic a = false := by decide +kernel
  simp [hnone p (Chart.mem_ids_of_children hap) hp a hap] at hatomic

/-- A region with a choice, and an atomic one after it. -/
def panel : ChartSpec Unit Signal where
  name := "panel"
  context := ()
  initial := some "p"
  states := [
    { key := "p"
      shape := .parallel
      states := [
        { key := "a"
          shape := .compound
          initial := some "a1"
          states := [{ key := "a1", shape := .atomic }, { key := "a2", shape := .atomic }] },
        { key := "z", shape := .atomic }] }]

theorem panel_built : panel.build = .ok panel.chart := by
  refine ChartSpec.build_eq_ok_iff.mpr ⟨?_, rfl⟩
  exact List.isEmpty_iff.mp (by decide +kernel)

def panelLeaves (choice : Path) : Configuration := .ofLeaves [choice, ⟨"p.z"⟩]

theorem panelLeaves_stands {choice : Path} {i : NodeId} {n : Node Unit Signal}
    (consistent : panel.chart.isConsistent (panelLeaves choice) = true)
    (hn : panel.chart.node? i = some n) (hatomic : n.isAtomic = true) (hpath : n.path = choice) :
    panel.chart.Stands (panelLeaves choice) := by
  have tree := ChartSpec.isTree_of_build panel_built
  refine tree.stands_iff_spans.mpr ⟨tree.isConsistent_eq_true_iff.mp consistent, fun p hp => ?_⟩
  obtain rfl | rfl : p = choice ∨ p = ⟨"p.z"⟩ := by
    simpa using Configuration.mem_ofLeaves.mp hp
  · exact ⟨i, n, hn, hatomic, hpath⟩
  · exact ⟨5, _, rfl, rfl, rfl⟩

theorem panel_loses_choice : ∃ c c', panel.chart.Stands c ∧ panel.chart.Stands c' ∧
    c.value = c'.value ∧ c ≠ c' := by
  refine ⟨panelLeaves ⟨"p.a.a1"⟩, panelLeaves ⟨"p.a.a2"⟩, ?_, ?_, by decide +kernel,
    by decide +kernel⟩
  · exact panelLeaves_stands (i := 3) (by decide +kernel) rfl rfl rfl
  · exact panelLeaves_stands (i := 4) (by decide +kernel) rfl rfl rfl

end Statechart
