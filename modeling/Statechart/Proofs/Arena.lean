import Mathlib.Data.List.Forall2
import Mathlib.Data.List.Zip
import Statechart.Proofs.Run

/-! The nodes that a declaration is built into. Each stands for one declared state and is as that
state declares it, and the numbers, paths and links of the nodes fit together as those of a tree in
document order. -/
namespace Statechart

variable {C E : Type}

/-- The transitions that a state declares for an event. -/
def StateSpec.declared (s : StateSpec C E) (event : String) : List (TransitionSpec C E) :=
  (s.on.filter (·.1 == event)).map (·.2)

namespace ChartSpec

/-- The node stands for the state: the root for the root, and the children of a node, one after
another, for the states declared in its own. -/
inductive Declares (spec : ChartSpec C E) (m : Chart C E) : NodeId → StateSpec C E → Prop where
  | root : Declares spec m Chart.root spec.root
  | child {p c : NodeId} {s t : StateSpec C E} (above : Declares spec m p s)
      (declared : (c, t) ∈ (m.children p).zip s.states) : Declares spec m c t

/-- The transition resolves to the candidate, and the target is a node. -/
def Resolves (spec : ChartSpec C E) (m : Chart C E) (source : Path) (trigger : String)
    (t : TransitionSpec C E) (c : Candidate C E) : Prop :=
  t.resolve spec.name spec.index source trigger = .ok c ∧ c.target ∈ m.ids

structure Mirrors (spec : ChartSpec C E) (m : Chart C E) (n : Node C E) (s : StateSpec C E) :
    Prop where
  key : n.key = s.key
  entry : n.entry = s.entry
  exit : n.exit = s.exit
  children : n.children.length = s.states.length
  atomic : s.shape = .atomic → n.kind = .atomic ∧ n.children = []
  compound : s.shape = .compound → ∃ c t, n.kind = .compound c ∧
    (c, t) ∈ n.children.zip s.states ∧ s.initial = some t.key
  parallel : s.shape = .parallel → n.kind = .parallel ∧ n.children ≠ []
  candidates : ∀ event,
    List.Forall₂ (spec.Resolves m n.path event) (s.declared event) (n.candidates event)
  after : List.Forall₂ (fun d a => a.delay = d.1 ∧
    spec.Resolves m n.path (Trigger.delayText n.path) d.2 a.candidate) s.after n.after.toList

/-- The nodes are the declared tree in document order. -/
structure LaidOut (spec : ChartSpec C E) (m : Chart C E) : Prop where
  rooted : ∃ n, m.node? Chart.root = some n ∧ n.path = .root ∧ n.isCompound = true
  id_eq : ∀ {i n}, m.node? i = some n → n.id = i
  lookup : ∀ {p i}, m.lookup p = .ok i ↔ ∃ n, m.node? i = some n ∧ n.path = p
  index : ∀ {p i}, spec.index p = some i ↔ m.lookup p = .ok i
  path_inj : ∀ {i j n n'}, m.node? i = some n → m.node? j = some n' → n.path = n'.path → i = j
  linked : ∀ {p c}, m.parent c = some p ↔ c ∈ m.children p
  orphan : ∀ {i}, i ∈ m.ids → (m.parent i = none ↔ i = Chart.root)
  climbs : ∀ {p c}, m.parent c = some p → m.ancestors c = p :: m.ancestors p
  nodes : ∀ {p c}, c ∈ m.children p → p ∈ m.ids ∧ c ∈ m.ids
  lt_child : ∀ {p c : Nat}, c ∈ m.children p → p < c
  ordered : ∀ p, (m.children p).Pairwise (· < ·)
  subtree : ∀ {i : Nat}, i ∈ m.ids → ∃ last : Nat, ∀ j : Nat,
    j ∈ m.ids ∧ (j = i ∨ i ∈ m.ancestors j) ↔ i ≤ j ∧ j ≤ last
  path : ∀ {p c n n'}, m.node? p = some n → m.node? c = some n' → c ∈ n.children →
    n'.path = n.path.child n'.key
  key : ∀ {i n}, m.node? i = some n → i ≠ Chart.root →
    n.key ≠ "" ∧ '.' ∉ n.key.toList ∧ '#' ∉ n.key.toList
  declared : ∀ {i n}, m.node? i = some n →
    ∃ s, spec.Declares m i s ∧ (∀ t, spec.Declares m i t → t = s) ∧ spec.Mirrors m n s

end ChartSpec

namespace StateSpec

theorem layout_subset_of_mem (s : StateSpec C E) :
    ∀ {ancestors : List NodeId} {path : Path} {id : NodeId} {e : Entry C E},
      e ∈ s.layout ancestors path id →
        e.spec.layout e.ancestors e.path e.id ⊆ s.layout ancestors path id := by
  induction s using tree_induction with
  | step s ih =>
    intro ancestors path id e he
    rcases mem_layout.mp he with rfl | ⟨c, hc, he⟩
    · exact List.Subset.refl _
    · intro d hd
      exact mem_layout.mpr (.inr ⟨c, hc, ih c.2 (List.of_mem_zip hc).2 he hd⟩)

theorem eq_or_mem_ancestors_of_mem_layout (s : StateSpec C E) :
    ∀ {ancestors : List NodeId} {path : Path} {id : NodeId} {e : Entry C E},
      e ∈ s.layout ancestors path id →
        (e.id = id ∨ id ∈ e.ancestors) ∧ ∀ a ∈ ancestors, a ∈ e.ancestors := by
  induction s using tree_induction with
  | step s ih =>
    intro ancestors path id e he
    rcases mem_layout.mp he with rfl | ⟨c, hc, he⟩
    · exact ⟨.inl rfl, fun _ ha => ha⟩
    · have habove := (ih c.2 (List.of_mem_zip hc).2 he).2
      exact ⟨.inr (habove id List.mem_cons_self),
        fun a ha => habove a (List.mem_cons_of_mem _ ha)⟩

end StateSpec

namespace Chart.IsTree

variable {m : Chart C E} (tree : m.IsTree)
include tree

theorem parent_eq_none_iff {i : NodeId} (h : i ∈ m.ids) : m.parent i = none ↔ i = root := by
  constructor
  · intro hnone
    by_contra hne
    obtain ⟨p, hp⟩ := tree.exists_parent h hne
    simp [tree.parent_child hp] at hnone
  · rintro rfl
    simp [parent, tree.ancestors_root]

theorem valid_key {p c : NodeId} {n : Node C E} (hc : c ∈ m.children p)
    (hn : m.node? c = some n) : isValidKey n.key = true := by
  obtain ⟨q, hq⟩ := mem_ids.mp (mem_ids_of_children hc)
  refine (tree.path hq hn ?_).2
  simpa [children, hq] using hc

end Chart.IsTree

namespace ChartSpec

variable {spec : ChartSpec C E}

theorem length_children_of_mem {e : Entry C E} (h : e ∈ spec.entries) :
    e.children.length = e.spec.states.length := by
  rw [childIds_of_mem h, StateSpec.length_childIds]

theorem entry_unique {e d : Entry C E} (he : e ∈ spec.entries) (hd : d ∈ spec.entries)
    (hid : e.id = d.id) : e = d :=
  Option.some.inj ((getElem?_entries.mpr ⟨he, hid⟩).symm.trans (getElem?_entries.mpr ⟨hd, rfl⟩))

theorem declares_iff {i : NodeId} {s : StateSpec C E} :
    spec.Declares spec.chart i s ↔ ∃ e ∈ spec.entries, e.id = i ∧ e.spec = s := by
  constructor
  · intro h
    induction h with
    | root => exact ⟨_, StateSpec.entryAt_mem_layout .., rfl, rfl⟩
    | @child p c s t _ declared ih =>
      obtain ⟨e, he, rfl, rfl⟩ := ih
      rw [children_of_mem he] at declared
      obtain ⟨d, hd, -, hid, hspec⟩ := StateSpec.holds_of_mem_layout _ he declared
      exact ⟨d, hd, hid, hspec⟩
  · rintro ⟨e, he, rfl, rfl⟩
    -- the entry that holds this one has a smaller number
    induction hk : e.id using Nat.strongRecOn generalizing e with
    | ind k ih =>
      subst hk
      rcases StateSpec.held_of_mem_layout _ he with rfl | ⟨p, hp, holds⟩
      · exact .root
      · have hmem := (List.of_mem_zip holds.declared).1
        have hlt : p.id < e.id := by
          rw [childIds_of_mem hp] at hmem
          exact StateSpec.le_of_mem_childIds hmem
        refine .child (ih p.id hlt p hp rfl) ?_
        rw [children_of_mem hp]
        exact holds.declared

theorem index_eq_some_iff (tree : spec.chart.IsTree) {p : Path} {i : NodeId} :
    spec.index p = some i ↔ spec.chart.lookup p = .ok i := by
  rw [tree.lookup_eq_ok_iff]
  constructor
  · intro h
    obtain ⟨e, he, rfl, rfl⟩ := idAt_eq_some h
    exact ⟨_, node?_of_mem he, rfl⟩
  · rintro ⟨n, hn, rfl⟩
    obtain ⟨e, he, rfl, rfl⟩ := exists_entry hn
    have hsome : (spec.entries.find? (·.path == e.path)).isSome = true :=
      List.find?_isSome.mpr ⟨e, he, by simp⟩
    obtain ⟨d, hd⟩ := Option.isSome_iff_exists.mp hsome
    have hdmem := List.mem_of_find?_eq_some hd
    have hpath : d.path = e.path := by simpa using List.find?_some hd
    have hid := tree.path_inj (node?_of_mem hdmem) (node?_of_mem he) hpath
    rw [index, idAt]
    exact Option.map_eq_some_iff.mpr ⟨d, hd, hid⟩

theorem mem_layout_of_ancestors (tree : spec.chart.IsTree) {e : Entry C E} (he : e ∈ spec.entries)
    {j : NodeId} (hj : e.id ∈ spec.chart.ancestors j) :
    ∃ d ∈ e.spec.layout e.ancestors e.path e.id, d.id = j := by
  have step : ∀ d ∈ e.spec.layout e.ancestors e.path e.id, ∀ c ∈ spec.chart.children d.id,
      ∃ g ∈ e.spec.layout e.ancestors e.path e.id, g.id = c := by
    intro d hd c hc
    have hd' := StateSpec.layout_subset_of_mem _ he hd
    rw [children_of_mem hd'] at hc
    obtain ⟨f, -, holds, rfl⟩ := exists_held hd' hc
    obtain ⟨g, hg, -, hid, -⟩ := StateSpec.holds_of_mem_layout _ hd holds.declared
    exact ⟨g, hg, hid⟩
  induction hj using tree.below_induction with
  | child c hc => exact step _ (StateSpec.entryAt_mem_layout ..) c hc
  | deeper p c hc _ ih =>
    obtain ⟨d, hd, rfl⟩ := ih
    exact step d hd c hc

/-- The numbers at and below a node are as many as its state has states, one after another. -/
theorem subtree_iff (tree : spec.chart.IsTree) {e : Entry C E} (he : e ∈ spec.entries)
    {j : Nat} :
    j ∈ spec.chart.ids ∧ (j = e.id ∨ e.id ∈ spec.chart.ancestors j) ↔
      e.id ≤ j ∧ j < e.id + e.spec.size := by
  have hrange : (∃ d ∈ e.spec.layout e.ancestors e.path e.id, d.id = j) ↔
      e.id ≤ j ∧ j < e.id + e.spec.size := by
    rw [← List.mem_range'_1, ← StateSpec.map_id_layout e.ancestors e.path, List.mem_map]
  rw [← hrange]
  constructor
  · rintro ⟨-, rfl | hj⟩
    · exact ⟨_, StateSpec.entryAt_mem_layout .., rfl⟩
    · exact mem_layout_of_ancestors tree he hj
  · rintro ⟨d, hd, rfl⟩
    have hd' := StateSpec.layout_subset_of_mem _ he hd
    refine ⟨mem_ids_chart.mpr ⟨d, hd', rfl⟩, ?_⟩
    rw [ancestors_of_mem hd']
    exact (StateSpec.eq_or_mem_ancestors_of_mem_layout _ hd).1

theorem exists_last (tree : spec.chart.IsTree) {i : Nat} (hi : i ∈ spec.chart.ids) :
    ∃ last : Nat, ∀ j : Nat, j ∈ spec.chart.ids ∧ (j = i ∨ i ∈ spec.chart.ancestors j) ↔
      i ≤ j ∧ j ≤ last := by
  obtain ⟨e, he, rfl⟩ := mem_ids_chart.mp hi
  refine ⟨e.id + e.spec.size - 1, fun j => ?_⟩
  have hsize := StateSpec.size_eq e.spec
  rw [subtree_iff tree he]
  exact and_congr_right fun _ => by omega

theorem kind_declared {e : Entry C E} (he : e ∈ spec.entries) (sound : e.spec.Sound)
    (shape : e.spec.shape = .compound) :
    ∃ c t, e.kind = .compound c ∧ (c, t) ∈ e.children.zip e.spec.states ∧
      e.spec.initial = some t.key := by
  obtain ⟨t, ht, initial⟩ := sound.compound shape
  obtain ⟨c, -, hc⟩ := Entry.kind_eq_compound (length_children_of_mem he) shape ht initial
  have hkind := hc
  simp only [Entry.kind, shape] at hkind
  split at hkind
  · rename_i t' c' hfind
    obtain rfl := Kind.compound.inj hkind
    have hmem := List.mem_of_find?_eq_some hfind
    refine ⟨c', t', hc, ?_, by simpa using List.find?_some hfind⟩
    rw [← List.zip_swap]
    exact List.mem_map.mpr ⟨_, hmem, rfl⟩
  · cases hkind

theorem ok_of_problem?_eq_none {α : Type} {x : Except Problem α} (h : problem? x = none) :
    ∃ a, x = .ok a := by
  cases x with
  | ok a => exact ⟨a, rfl⟩
  | error p => cases h

theorem resolveOn_ok (h : spec.eventProblems = []) {e : Entry C E} (he : e ∈ spec.entries)
    {x : String × TransitionSpec C E} (hx : x ∈ e.spec.on) :
    ∃ c, x.2.resolve spec.name spec.index e.path x.1 = .ok c := by
  have hnone := List.filterMap_eq_nil_iff.mp (List.flatMap_eq_nil_iff.mp h e he)
  exact ok_of_problem?_eq_none (hnone _ (List.mem_map.mpr ⟨x, hx, rfl⟩))

theorem resolveAfter_ok (h : spec.delayProblems = []) {e : Entry C E} (he : e ∈ spec.entries)
    {d : Duration × TransitionSpec C E} (hd : d ∈ e.spec.after.head?) :
    ∃ c, d.2.resolve spec.name spec.index e.path (Trigger.delayText e.path) = .ok c := by
  have hnone := List.filterMap_eq_nil_iff.mp h e he
  rw [Entry.resolveAfter, Option.mem_def.mp hd] at hnone
  exact ok_of_problem?_eq_none hnone

theorem forall₂_candidates {α β : Type} (resolve : String → α → Except Problem β) (event : String)
    {on : List (String × α)} (ok : ∀ x ∈ on, ∃ c, resolve x.1 x.2 = .ok c) :
    List.Forall₂ (fun t c => resolve event t = .ok c) ((on.filter (·.1 == event)).map (·.2))
      ((((on.map fun x => (x.1, resolve x.1 x.2)).filterMap
        fun x => x.2.toOption.map (x.1, ·)).filter (·.1 == event)).map (·.2)) := by
  induction on with
  | nil => simp
  | cons x rest ih =>
    obtain ⟨c, hc⟩ := ok x List.mem_cons_self
    have hrest := ih fun y hy => ok y (List.mem_cons_of_mem _ hy)
    by_cases hx : x.1 = event
    · subst hx
      simpa [hc, Except.toOption] using hrest
    · simpa [hc, hx, Except.toOption] using hrest

theorem mirrors_of_mem (h : spec.problems = []) {e : Entry C E} (he : e ∈ spec.entries) :
    spec.Mirrors spec.chart (e.node spec.name spec.index) e.spec := by
  simp only [problems, List.append_eq_nil_iff] at h
  obtain ⟨⟨htree, hevents⟩, hdelays⟩ := h
  have sound := sound_of_problems htree he
  have hlen := length_children_of_mem he
  refine ⟨rfl, rfl, rfl, hlen, fun hs => ?_, kind_declared he sound, fun hs => ?_, fun event => ?_,
    ?_⟩
  · refine ⟨by simp [Entry.node, Entry.kind, hs], List.length_eq_zero_iff.mp ?_⟩
    exact hlen.trans (by rw [sound.atomic hs, List.length_nil])
  · refine ⟨by simp [Entry.node, Entry.kind, hs], fun hnil => sound.parallel hs ?_⟩
    exact List.length_eq_zero_iff.mp (hlen.symm.trans (congrArg List.length hnil))
  · have hdeclared := forall₂_candidates (fun event t => t.resolve spec.name spec.index e.path event)
      event fun x hx => resolveOn_ok hevents he hx
    refine hdeclared.imp fun t c hc => ⟨hc, ?_⟩
    exact target_of_resolve hc
  · cases hd : e.spec.after with
    | nil => simp [Entry.node, Entry.resolveAfter, hd]
    | cons d rest =>
      obtain rfl : rest = [] := by
        have := sound.delay
        rw [hd, List.length_cons] at this
        exact List.length_eq_zero_iff.mp (by omega)
      obtain ⟨c, hc⟩ := resolveAfter_ok hdelays he (d := d) (by simp [hd])
      simpa [Entry.node, Entry.resolveAfter, hd, hc, Except.toOption, Resolves] using
        target_of_resolve hc

theorem laidOut_chart (h : spec.problems = []) : spec.LaidOut spec.chart := by
  have hproblems := h
  simp only [problems, List.append_eq_nil_iff] at hproblems
  have tree := isTree_chart hproblems.1.1
  constructor
  case rooted =>
    obtain ⟨n, hn, -, hpath, hcompound⟩ := tree.rooted
    exact ⟨n, hn, hpath, hcompound⟩
  case id_eq => exact tree.id_eq
  case lookup => exact tree.lookup_eq_ok_iff
  case index => exact index_eq_some_iff tree
  case path_inj => exact tree.path_inj
  case linked => exact tree.parent_eq_some_iff
  case orphan => exact fun hi => tree.parent_eq_none_iff hi
  case climbs => exact fun h => tree.ancestors_child (tree.parent_eq_some_iff.mp h)
  case nodes => exact fun h => ⟨Chart.mem_ids_of_children h, tree.child_mem_ids h⟩
  case lt_child => exact tree.lt_child
  case ordered => exact tree.ordered
  case subtree => exact exists_last tree
  case path => exact fun hn hn' hc => (tree.path hn hn' hc).1
  case key =>
    intro i n hn hne
    obtain ⟨p, hp⟩ := tree.exists_parent (Chart.mem_ids.mpr ⟨n, hn⟩) hne
    exact valid_of_isValidKey (tree.valid_key hp hn)
  case declared =>
    intro i n hn
    obtain ⟨e, he, rfl, rfl⟩ := exists_entry hn
    refine ⟨e.spec, declares_iff.mpr ⟨e, he, rfl, rfl⟩, fun t ht => ?_, mirrors_of_mem h he⟩
    obtain ⟨d, hd, hid, rfl⟩ := declares_iff.mp ht
    rw [entry_unique hd he hid]

theorem laidOut_of_build {m : Chart C E} (built : spec.build = .ok m) : spec.LaidOut m := by
  obtain ⟨hproblems, rfl⟩ := build_eq_ok_iff.mp built
  exact laidOut_chart hproblems

end ChartSpec

theorem relay_laidOut : relay.LaidOut relay.chart := ChartSpec.laidOut_of_build relay_built

end Statechart
