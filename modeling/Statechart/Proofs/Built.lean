import Statechart.Proofs.Sound
import Statechart.Proofs.Tree

/-! What a declaration without problems is built into: a tree of nodes in document order. -/
namespace Statechart

variable {C E : Type}

theorem idAt_eq_some {entries : List (Entry C E)} {path : Path} {id : NodeId}
    (h : idAt entries path = some id) : ∃ e ∈ entries, e.id = id ∧ e.path = path := by
  obtain ⟨e, he, rfl⟩ := Option.map_eq_some_iff.mp h
  exact ⟨e, List.mem_of_find?_eq_some he, rfl, by simpa using List.find?_some he⟩

theorem Except.bind_eq_ok {ε α β : Type} {x : Except ε α} {f : α → Except ε β} {b : β} :
    (x >>= f) = .ok b ↔ ∃ a, x = .ok a ∧ f a = .ok b := by
  cases x with
  | error e => simp [bind, Except.bind]
  | ok a => simp [bind, Except.bind]

theorem Except.toOption_eq_some {ε α : Type} {x : Except ε α} {a : α} :
    x.toOption = some a ↔ x = .ok a := by
  cases x <;> simp [Except.toOption]

namespace TransitionSpec

def resolveTarget (t : TransitionSpec C E) (chart : String) (source : Path) (trigger : String) :
    Except Problem Path :=
  match t.target with
  | none => .ok source
  | some raw => targetPath chart source trigger raw

def resolveId (t : TransitionSpec C E) (index : Path → Option NodeId) (source : Path)
    (trigger : String) (path : Path) : Except Problem NodeId :=
  match index path with
  | some id => .ok id
  | none => .error (.unknownTarget source trigger (t.target.getD ""))

def resolveGuard (t : TransitionSpec C E) (chart : String) (index : Path → Option NodeId)
    (source : Path) (trigger : String) : Except Problem (Option (Guard C E)) :=
  match t.inState with
  | none => .ok t.guard
  | some raw =>
    if (index (guardPath chart raw)).isNone then .error (.unknownGuardState source trigger raw)
    else
      match t.guard with
      | none => .ok (some (.inState (guardPath chart raw)))
      | some g => .ok (some (g.within (guardPath chart raw)))

theorem resolve_eq (t : TransitionSpec C E) (chart : String) (index : Path → Option NodeId)
    (source : Path) (trigger : String) :
    t.resolve chart index source trigger = (do
      let path ← t.resolveTarget chart source trigger
      let target ← t.resolveId index source trigger path
      let guard ← t.resolveGuard chart index source trigger
      return ⟨target, guard, t.internal || t.target.isNone, t.actions⟩) := by
  unfold resolve resolveTarget resolveId resolveGuard
  cases ht : t.target with
  | none =>
    cases hi : index source <;> cases hs : t.inState <;> cases hg : t.guard <;>
      simp [hi, bind, Except.bind]
    all_goals split <;> rfl
  | some raw =>
    cases hp : targetPath chart source trigger raw with
    | error e => simp [hp, bind, Except.bind]
    | ok path =>
      cases hi : index path <;> cases hs : t.inState <;> cases hg : t.guard <;>
        simp [hp, hi, bind, Except.bind]
      all_goals split <;> rfl

theorem resolve_eq_ok_iff {t : TransitionSpec C E} {chart trigger : String}
    {index : Path → Option NodeId} {source : Path} {c : Candidate C E} :
    t.resolve chart index source trigger = .ok c ↔
      ∃ path, t.resolveTarget chart source trigger = .ok path ∧ index path = some c.target ∧
        t.resolveGuard chart index source trigger = .ok c.guard ∧
        c.internal = (t.internal || t.target.isNone) ∧ c.actions = t.actions := by
  have hid : ∀ path id, t.resolveId index source trigger path = .ok id ↔ index path = some id := by
    intro path id
    unfold resolveId
    cases index path <;> simp
  rw [resolve_eq, Except.bind_eq_ok]
  refine exists_congr fun path => and_congr_right fun _ => ?_
  rw [Except.bind_eq_ok]
  simp only [Except.bind_eq_ok, hid]
  constructor
  · rintro ⟨target, htarget, guard, hguard, hc⟩
    obtain rfl := Except.ok.inj hc
    exact ⟨htarget, hguard, rfl, rfl⟩
  · rintro ⟨htarget, hguard, hinternal, hactions⟩
    refine ⟨c.target, htarget, c.guard, hguard, congrArg Except.ok ?_⟩
    rw [← hinternal, ← hactions]

theorem resolve_target {t : TransitionSpec C E} {chart trigger : String}
    {index : Path → Option NodeId} {source : Path} {c : Candidate C E}
    (h : t.resolve chart index source trigger = .ok c) : ∃ path, index path = some c.target := by
  obtain ⟨path, -, hpath, -⟩ := resolve_eq_ok_iff.mp h
  exact ⟨path, hpath⟩

end TransitionSpec

namespace Entry

theorem kind_eq_compound {e : Entry C E} {t : StateSpec C E}
    (length : e.children.length = e.spec.states.length) (shape : e.spec.shape = .compound)
    (ht : t ∈ e.spec.states) (initial : e.spec.initial = some t.key) :
    ∃ c ∈ e.children, e.kind = .compound c := by
  obtain ⟨i, hi, rfl⟩ := List.mem_iff_getElem.mp ht
  have hi' : i < e.children.length := length ▸ hi
  have hmem : (e.spec.states[i], e.children[i]) ∈ e.spec.states.zip e.children := by
    rw [List.mem_iff_getElem]
    exact ⟨i, by simp [length, hi], by simp⟩
  obtain ⟨c, hc⟩ := Option.isSome_iff_exists.mp (List.find?_isSome (p := fun c =>
    e.spec.initial == some c.1.key).mpr ⟨_, hmem, by simp [initial]⟩)
  refine ⟨c.2, (List.of_mem_zip (List.mem_of_find?_eq_some hc)).2, ?_⟩
  simp only [kind, shape, hc]

end Entry

namespace ChartSpec

variable {spec : ChartSpec C E}

theorem map_id_entries (spec : ChartSpec C E) :
    spec.entries.map (·.id) = List.range spec.entries.length := by
  rw [entries, StateSpec.map_id_layout, StateSpec.length_layout, List.range_eq_range']

theorem getElem?_entries {i : NodeId} {e : Entry C E} :
    spec.entries[i]? = some e ↔ e ∈ spec.entries ∧ e.id = i := by
  have hid : ∀ {j : Nat} {e : Entry C E}, spec.entries[j]? = some e → e.id = j := by
    intro j e he
    have h := congrArg (·[j]?) (map_id_entries spec)
    obtain ⟨hj, rfl⟩ := List.getElem?_eq_some_iff.mp he
    simpa [hj] using h
  constructor
  · intro h
    exact ⟨List.mem_of_getElem? h, hid h⟩
  · rintro ⟨he, rfl⟩
    obtain ⟨j, hj⟩ := List.mem_iff_getElem?.mp he
    rwa [← hid hj] at hj

theorem node?_chart (spec : ChartSpec C E) (i : NodeId) :
    spec.chart.node? i = (spec.entries[i]?).map (·.node spec.name spec.index) := by
  simp [chart, Chart.node?, index]

theorem node?_of_mem {e : Entry C E} (h : e ∈ spec.entries) :
    spec.chart.node? e.id = some (e.node spec.name spec.index) := by
  rw [node?_chart, getElem?_entries.mpr ⟨h, rfl⟩, Option.map_some]

theorem node?_root (spec : ChartSpec C E) :
    spec.chart.node? Chart.root =
      some ((spec.root.entryAt [] .root 0).node spec.name spec.index) :=
  node?_of_mem (StateSpec.entryAt_mem_layout ..)

theorem exists_entry {i : NodeId} {n : Node C E} (h : spec.chart.node? i = some n) :
    ∃ e ∈ spec.entries, e.id = i ∧ n = e.node spec.name spec.index := by
  rw [node?_chart] at h
  obtain ⟨e, he, rfl⟩ := Option.map_eq_some_iff.mp h
  exact ⟨e, (getElem?_entries.mp he).1, (getElem?_entries.mp he).2, rfl⟩

theorem mem_ids_chart {i : NodeId} : i ∈ spec.chart.ids ↔ ∃ e ∈ spec.entries, e.id = i := by
  rw [Chart.mem_ids]
  constructor
  · rintro ⟨n, hn⟩
    obtain ⟨e, he, hi, -⟩ := exists_entry hn
    exact ⟨e, he, hi⟩
  · rintro ⟨e, he, rfl⟩
    exact ⟨_, node?_of_mem he⟩

theorem children_of_mem {e : Entry C E} (h : e ∈ spec.entries) :
    spec.chart.children e.id = e.children := by
  simp [Chart.children, node?_of_mem h, Entry.node]

theorem ancestors_of_mem {e : Entry C E} (h : e ∈ spec.entries) :
    spec.chart.ancestors e.id = e.ancestors := by
  simp [Chart.ancestors, node?_of_mem h, Entry.node]

theorem kind?_of_mem {e : Entry C E} (h : e ∈ spec.entries) :
    spec.chart.kind? e.id = some e.kind := by
  simp [Chart.kind?, node?_of_mem h, Entry.node]

theorem childIds_of_mem {e : Entry C E} (h : e ∈ spec.entries) :
    e.children = StateSpec.childIds (e.id + 1) e.spec.states :=
  StateSpec.children_of_mem_layout _ h

theorem exists_held {p : Entry C E} {c : NodeId} (hp : p ∈ spec.entries) (hc : c ∈ p.children) :
    ∃ e ∈ spec.entries, p.Holds e ∧ e.id = c := by
  have hlen : p.children.length = p.spec.states.length := by
    rw [childIds_of_mem hp, StateSpec.length_childIds]
  obtain ⟨i, hi, rfl⟩ := List.mem_iff_getElem.mp hc
  have hi' : i < p.spec.states.length := hlen ▸ hi
  have hmem : (p.children[i], p.spec.states[i]) ∈ p.children.zip p.spec.states := by
    rw [List.mem_iff_getElem]
    exact ⟨i, by simp [hlen, hi'], by simp⟩
  obtain ⟨e, he, holds, hid, -⟩ := StateSpec.holds_of_mem_layout _ hp hmem
  exact ⟨e, he, holds, hid⟩

theorem exists_entry_of_child {p c : NodeId} (h : c ∈ spec.chart.children p) :
    ∃ e ∈ spec.entries, e.id = p ∧ c ∈ e.children := by
  obtain ⟨e, he, rfl⟩ := mem_ids_chart.mp (Chart.mem_ids_of_children h)
  exact ⟨e, he, rfl, children_of_mem he ▸ h⟩

theorem build_eq_ok_iff {m : Chart C E} :
    spec.build = .ok m ↔ spec.problems = [] ∧ m = spec.chart := by
  unfold build
  rcases h : spec.problems with _ | ⟨p, _ | ⟨q, rest⟩⟩ <;> simp [Problem.report, eq_comm]

theorem sound_of_problems (h : spec.treeProblems = []) {e : Entry C E} (he : e ∈ spec.entries) :
    e.spec.Sound :=
  ((StateSpec.problems_eq_nil_iff _ _ _ _).mp h).1.sound_of_mem he

theorem nodup_paths_of_problems (h : spec.treeProblems = []) :
    (spec.entries.map (·.path)).Nodup :=
  ((StateSpec.problems_eq_nil_iff _ _ _ _).mp h).2.1

theorem kind_of_sound {e : Entry C E} (he : e ∈ spec.entries) (sound : e.spec.Sound) :
    (e.kind = .atomic ∧ e.children = []) ∨ (∃ c ∈ e.children, e.kind = .compound c) ∨
      (e.kind = .parallel ∧ e.children ≠ []) := by
  have hchildren := childIds_of_mem he
  have hlen : e.children.length = e.spec.states.length := by
    rw [hchildren, StateSpec.length_childIds]
  cases hs : e.spec.shape with
  | atomic =>
    refine .inl ⟨by simp [Entry.kind, hs], ?_⟩
    rw [hchildren, sound.atomic hs, StateSpec.childIds]
  | parallel =>
    refine .inr (.inr ⟨by simp [Entry.kind, hs], fun hnil => sound.parallel hs ?_⟩)
    exact List.length_eq_zero_iff.mp (by rw [← hlen, hnil, List.length_nil])
  | compound =>
    obtain ⟨t, ht, initial⟩ := sound.compound hs
    exact .inr (.inl (Entry.kind_eq_compound hlen hs ht initial))

theorem target_of_resolve {t : TransitionSpec C E} {trigger : String} {source : Path}
    {c : Candidate C E} (h : t.resolve spec.name spec.index source trigger = .ok c) :
    c.target ∈ spec.chart.ids := by
  obtain ⟨path, hpath⟩ := TransitionSpec.resolve_target h
  obtain ⟨e, he, hid, -⟩ := idAt_eq_some hpath
  exact mem_ids_chart.mpr ⟨e, he, hid⟩

theorem target_of_resolveOn {e : Entry C E} {c : String × Candidate C E}
    (h : c ∈ (e.node spec.name spec.index).on) : c.2.target ∈ spec.chart.ids := by
  obtain ⟨r, hr, hc⟩ := List.mem_filterMap.mp h
  obtain ⟨d, hd, rfl⟩ := Option.map_eq_some_iff.mp hc
  obtain ⟨⟨event, t⟩, -, rfl⟩ := List.mem_map.mp hr
  exact target_of_resolve (Except.toOption_eq_some.mp hd)

theorem target_of_resolveAfter {e : Entry C E} {d : Delayed C E}
    (h : d ∈ (e.node spec.name spec.index).after) : d.candidate.target ∈ spec.chart.ids := by
  obtain ⟨r, hr, hc⟩ := Option.bind_eq_some_iff.mp h
  obtain ⟨c, hd, rfl⟩ := Option.map_eq_some_iff.mp hc
  obtain ⟨⟨delay, t⟩, -, rfl⟩ := Option.map_eq_some_iff.mp hr
  exact target_of_resolve (Except.toOption_eq_some.mp hd)

section

variable (h : spec.treeProblems = [])

include h

theorem kind?_cases {i : NodeId} {k : Kind} (hk : spec.chart.kind? i = some k) :
    (k = .atomic ∧ spec.chart.children i = []) ∨
      (∃ c ∈ spec.chart.children i, k = .compound c) ∨
        (k = .parallel ∧ spec.chart.children i ≠ []) := by
  obtain ⟨e, he, rfl⟩ := mem_ids_chart.mp (Chart.mem_ids_of_kind hk)
  rw [kind?_of_mem he] at hk
  obtain rfl := Option.some.inj hk
  rw [children_of_mem he]
  exact kind_of_sound he (sound_of_problems h he)

theorem isCompound_entryAt_root {e : Entry C E} (hroot : e = spec.root.entryAt [] .root 0) :
    (e.node spec.name spec.index).isCompound = true := by
  have hmem : e ∈ spec.entries := hroot ▸ StateSpec.entryAt_mem_layout ..
  have hshape : e.spec.shape = .compound := by
    rw [hroot]
    rfl
  obtain ⟨t, ht, initial⟩ := (sound_of_problems h hmem).compound hshape
  have hlen : e.children.length = e.spec.states.length := by
    rw [childIds_of_mem hmem, StateSpec.length_childIds]
  obtain ⟨c, -, hc⟩ := Entry.kind_eq_compound hlen hshape ht initial
  simp [Node.isCompound, Node.isAtomic, Node.isParallel, Entry.node, hc]

theorem entry_path_inj {e d : Entry C E} (he : e ∈ spec.entries) (hd : d ∈ spec.entries)
    (hpath : e.path = d.path) : e.id = d.id := by
  have hei := getElem?_entries.mpr ⟨he, rfl⟩
  have hdi := getElem?_entries.mpr ⟨hd, rfl⟩
  have hlt : e.id < (spec.entries.map (·.path)).length := by
    simpa using (List.getElem?_eq_some_iff.mp hei).1
  refine (List.getElem?_inj hlt (nodup_paths_of_problems h)).mp ?_
  rw [List.getElem?_map, List.getElem?_map, hei, hdi]
  exact congrArg some hpath

/-- A declaration without problems in its tree is laid out as a tree of nodes. -/
theorem isTree_chart : spec.chart.IsTree where
  id_eq := by
    intro i n hn
    obtain ⟨e, -, rfl, rfl⟩ := exists_entry hn
    rfl
  rooted := ⟨_, node?_root spec, rfl, rfl, isCompound_entryAt_root h rfl⟩
  held := by
    intro i n hn
    obtain ⟨e, he, rfl, rfl⟩ := exists_entry hn
    rcases StateSpec.held_of_mem_layout _ he with rfl | ⟨p, hp, holds⟩
    · exact .inl rfl
    · right
      refine ⟨p.id, ?_, ?_⟩
      · rw [ancestors_of_mem hp]
        exact holds.ancestors
      · rw [children_of_mem hp]
        exact (List.of_mem_zip holds.declared).1
  holds := by
    intro p c hc
    obtain ⟨e, he, rfl, hmem⟩ := exists_entry_of_child hc
    obtain ⟨d, hd, holds, rfl⟩ := exists_held he hmem
    exact ⟨mem_ids_chart.mpr ⟨d, hd, rfl⟩, by
      rw [ancestors_of_mem hd, ancestors_of_mem he, holds.ancestors]⟩
  lt_child := by
    intro p c hc
    obtain ⟨e, he, rfl, hmem⟩ := exists_entry_of_child hc
    rw [childIds_of_mem he] at hmem
    exact StateSpec.le_of_mem_childIds hmem
  ordered := by
    intro p
    by_cases hp : p ∈ spec.chart.ids
    · obtain ⟨e, he, rfl⟩ := mem_ids_chart.mp hp
      rw [children_of_mem he, childIds_of_mem he]
      exact StateSpec.pairwise_childIds _ _
    · have hnil : spec.chart.children p = [] :=
        List.eq_nil_iff_forall_not_mem.mpr fun c hc => hp (Chart.mem_ids_of_children hc)
      rw [hnil]
      exact List.Pairwise.nil
  atomic := by
    intro i hi
    rcases kind?_cases h (Chart.isAtomic_iff.mp hi) with ⟨-, hnil⟩ | ⟨c, -, hk⟩ | ⟨hk, -⟩
    · exact hnil
    · cases hk
    · cases hk
  compound := by
    intro i initial hi
    rcases kind?_cases h hi with ⟨hk, -⟩ | ⟨c, hmem, hk⟩ | ⟨hk, -⟩
    · cases hk
    · cases hk
      exact hmem
    · cases hk
  parallel := by
    intro i hi
    rcases kind?_cases h (Chart.isParallel_iff.mp hi) with ⟨hk, -⟩ | ⟨c, -, hk⟩ | ⟨-, hne⟩
    · cases hk
    · cases hk
    · exact hne
  path := by
    intro p c n n' hn hn' hc
    obtain ⟨e, he, rfl, rfl⟩ := exists_entry hn
    obtain ⟨d, hd, holds, rfl⟩ := exists_held he hc
    obtain rfl : d.node spec.name spec.index = n' := by simpa [node?_of_mem hd] using hn'
    exact ⟨holds.path, (sound_of_problems h he).keys d.spec (List.of_mem_zip holds.declared).2⟩
  path_inj := by
    intro i j n n' hn hn' hpath
    obtain ⟨e, he, rfl, rfl⟩ := exists_entry hn
    obtain ⟨d, hd, rfl, rfl⟩ := exists_entry hn'
    exact entry_path_inj h he hd hpath
  target := by
    intro i n hn
    obtain ⟨e, -, -, rfl⟩ := exists_entry hn
    exact ⟨fun c hc => target_of_resolveOn hc, fun d hd => target_of_resolveAfter hd⟩

end

theorem isTree_of_build {m : Chart C E} (built : spec.build = .ok m) : m.IsTree := by
  obtain ⟨hproblems, rfl⟩ := build_eq_ok_iff.mp built
  simp only [problems, List.append_eq_nil_iff] at hproblems
  exact isTree_chart hproblems.1.1

end ChartSpec
end Statechart
