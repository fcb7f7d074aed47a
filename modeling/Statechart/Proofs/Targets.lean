import Statechart.Proofs.Ancestry
import Statechart.Proofs.Arena
import Statechart.Proofs.TransitionChecks

/-! Texts that name states. From a state, a text names another one if it is that state's path after
the chart's name, or the way down to it from the state itself or from its parent, and so each state
but the root has its own few names. The root is to have none, but has two that nobody looks for. -/
namespace Statechart

variable {C E : Type}

namespace Path

theorem child_eq_root_iff {p : Path} {key : String} : p.child key = .root ↔ p = .root ∧ key = "" := by
  by_cases hp : p = .root
  · subst hp
    rw [child_root]
    simp [root]
  · have hne : (p.child key).chars ≠ Path.root.chars := by
      simp [chars_child hp, chars_root]
    exact iff_of_false (fun h => hne (congrArg chars h)) fun h => hp h.1

theorem child_inj {p : Path} {key key' : String} : p.child key = p.child key' ↔ key = key' := by
  by_cases hp : p = .root
  · subst hp
    simp [child_root]
  · rw [← chars_inj, chars_child hp, chars_child hp]
    simp [String.toList_inj]

theorem child_child {p : Path} {key : String} (h : p.child key ≠ .root) (key' : String) :
    (p.child key).child key' = p.child (key ++ "." ++ key') := by
  rw [← chars_inj, chars_child h]
  by_cases hp : p = .root
  · subst hp
    simp [child_root, chars]
  · simp [chars_child hp]

theorem isAncestorOf_child_self {p : Path} {key : String} (h : p.child key ≠ .root) :
    p.isAncestorOf (p.child key) = true := by
  by_cases hp : p = .root
  · exact isAncestorOf_iff.mpr (.inl ⟨hp, h⟩)
  · refine isAncestorOf_iff.mpr (.inr ⟨hp, key.toList, ?_⟩)
    simp [chars_child hp]

theorem foldl_child (first : List Char) (rest : List (List Char)) (p : Path)
    (h : p ≠ .root ∨ first ≠ [] ∨ rest = []) :
    (first :: rest).foldl (fun q key => q.child (String.ofList key)) p =
      p.child (String.ofList (['.'].intercalate (first :: rest))) := by
  induction rest generalizing first p with
  | nil => simp
  | cons second rest ih =>
    have hne : p.child (String.ofList first) ≠ .root := by
      rw [ne_eq, child_eq_root_iff]
      simpa [imp_iff_not_or] using h
    rw [List.foldl_cons, ih second _ (.inl hne), child_child hne, List.intercalate_cons_cons,
      String.ofList_append, String.ofList_append]

theorem descend_eq_child {p : Path} {below : String}
    (h : p ≠ .root ∨ below.toList.head? ≠ some '.') : p.descend below = p.child below := by
  have hjoin : ['.'].intercalate (below.toList.splitOn '.') = below.toList :=
    List.intercalate_splitOn '.'
  unfold descend
  rcases hkeys : below.toList.splitOn '.' with _ | ⟨first, rest⟩
  · exact absurd hkeys (List.splitOn_ne_nil _ _)
  · rw [hkeys] at hjoin
    rw [foldl_child, hjoin, String.ofList_toList]
    -- an empty first key with more after it is a dot in front
    refine h.imp_right fun hdot => ?_
    by_contra hlost
    obtain ⟨hfirst, hrest⟩ := not_or.mp hlost
    obtain rfl := not_not.mp hfirst
    obtain ⟨second, rest, rfl⟩ := List.exists_cons_of_ne_nil hrest
    rw [List.intercalate_cons_cons] at hjoin
    exact hdot (by simp [← hjoin])

end Path

theorem intercalate_concat {sep : String} {l : List String} (h : l ≠ []) (s : String) :
    sep.intercalate (l ++ [s]) = sep.intercalate l ++ sep ++ s := by
  induction l with
  | nil => exact absurd rfl h
  | cons t rest ih =>
    cases rest with
    | nil => simp
    | cons u rest =>
      have ih := ih (by simp)
      simp only [List.cons_append, String.intercalate_cons_cons] at ih ⊢
      rw [ih]
      simp [String.append_assoc]

namespace Chart

variable {m : Chart C E}

/-- The keys on the way from one node down to another, joined by dots. -/
def wayDown (m : Chart C E) (above id : NodeId) : String :=
  ".".intercalate (((m.lineage above id).reverse.filterMap m.node?).map (·.key))

/-- From one node the text names another: by its path after the name of the chart, by the way down
from the node with a dot in front, or by the way down from the parent of the node. -/
inductive Denotes (m : Chart C E) (name : String) (s t : NodeId) : String → Prop where
  | absolute : Denotes m name s t ("#" ++ name ++ "." ++ (m.pathAt t).text)
  | below : s ∈ m.ancestors t → Denotes m name s t ("." ++ m.wayDown s t)
  | beside {p : NodeId} : m.parent s = some p → p ∈ m.ancestors t →
      Denotes m name s t (m.wayDown p t)

namespace IsTree

variable (tree : m.IsTree)
include tree

theorem wayDown_child {p c : NodeId} {n : Node C E} (hc : c ∈ m.children p)
    (hn : m.node? c = some n) : m.wayDown p c = n.key := by
  simp [wayDown, lineage, tree.ancestors_child hc, hn]

theorem wayDown_below {a p c : NodeId} {n : Node C E} (hc : c ∈ m.children p)
    (ha : a ∈ m.ancestors p) (hn : m.node? c = some n) :
    m.wayDown a c = m.wayDown a p ++ "." ++ n.key := by
  have hpa : p ≠ a := by
    rintro rfl
    exact tree.not_mem_ancestors_self p ha
  have hlineage : m.lineage a c = c :: m.lineage a p := by
    simp [lineage, tree.ancestors_child hc, hpa]
  obtain ⟨n', hn'⟩ := mem_ids.mp (mem_ids_of_children hc)
  have hkeys : ((m.lineage a p).reverse.filterMap m.node?).map (·.key) ≠ [] := by
    simp [lineage, hn']
  rw [wayDown, wayDown, ← intercalate_concat hkeys, hlineage, List.reverse_cons,
    List.filterMap_append, List.map_append]
  simp [hn]

theorem pathAt_wayDown {a i : NodeId} (h : a ∈ m.ancestors i) :
    m.pathAt i = (m.pathAt a).child (m.wayDown a i) := by
  have step : ∀ {p c n}, c ∈ m.children p → m.node? c = some n →
      m.pathAt c = (m.pathAt p).child n.key := by
    intro p c n hc hn
    obtain ⟨n', hn'⟩ := mem_ids.mp (mem_ids_of_children hc)
    rw [pathAt_eq hn, pathAt_eq hn']
    exact (tree.path hn' hn (by simpa [children, hn'] using hc)).1
  induction h using tree.below_induction with
  | child c hc =>
    obtain ⟨n, hn⟩ := mem_ids.mp (tree.child_mem_ids hc)
    rw [tree.wayDown_child hc hn, step hc hn]
  | deeper p c hc h ih =>
    obtain ⟨n, hn⟩ := mem_ids.mp (tree.child_mem_ids hc)
    -- two keys are joined by a dot only below a path that is not empty
    have hne := tree.pathAt_ne_root (mem_ids_of_children hc) (tree.ne_root_of_mem_ancestors h)
    rw [ih] at hne
    rw [step hc hn, ih, Path.child_child hne, tree.wayDown_below hc h hn]

theorem wayDown_head {a i : NodeId} (h : a ∈ m.ancestors i) :
    ∃ c, (m.wayDown a i).toList.head? = some c ∧ c ≠ '.' ∧ c ≠ '#' := by
  induction h using tree.below_induction with
  | child c hc =>
    obtain ⟨n, hn⟩ := mem_ids.mp (tree.child_mem_ids hc)
    obtain ⟨hne, hdot, hsharp⟩ := valid_of_isValidKey (tree.valid_key hc hn)
    obtain ⟨d, rest, hkey⟩ := List.exists_cons_of_ne_nil (mt String.toList_eq_nil_iff.mp hne)
    rw [hkey, List.mem_cons, not_or] at hdot hsharp
    refine ⟨d, ?_, Ne.symm hdot.1, Ne.symm hsharp.1⟩
    rw [tree.wayDown_child hc hn, hkey, List.head?_cons]
  | deeper p c hc h ih =>
    obtain ⟨n, hn⟩ := mem_ids.mp (tree.child_mem_ids hc)
    obtain ⟨d, hd, hvalid⟩ := ih
    refine ⟨d, ?_, hvalid⟩
    rw [tree.wayDown_below hc h hn, String.toList_append, String.toList_append, List.append_assoc,
      List.head?_append, hd, Option.some_or]

/-- Only the way down leads from the path of one node to that of another. -/
theorem child_eq_pathAt_iff {a t : NodeId} (ha : a ∈ m.ids) (ht : t ∈ m.ids) (hne : t ≠ root)
    {below : String} :
    (m.pathAt a).child below = m.pathAt t ↔ a ∈ m.ancestors t ∧ below = m.wayDown a t := by
  constructor
  · intro h
    have habove := Path.isAncestorOf_child_self (h ▸ tree.pathAt_ne_root ht hne)
    rw [h, tree.isAncestorOf_pathAt ht] at habove
    obtain ⟨a', ha', hpath⟩ := habove
    obtain rfl := tree.pathAt_inj (tree.ancestor_mem_ids ha') ha hpath
    exact ⟨ha', Path.child_inj.mp (h.trans (tree.pathAt_wayDown ha'))⟩
  · rintro ⟨h, rfl⟩
    exact (tree.pathAt_wayDown h).symm

theorem exists_parent_path {s : NodeId} (hs : s ∈ m.ids) (hne : s ≠ root) :
    ∃ p ∈ m.ids, m.parent s = some p ∧ (m.pathAt s).parent = some (m.pathAt p) := by
  obtain ⟨p, hp⟩ := tree.exists_parent hs hne
  exact ⟨p, mem_ids_of_children hp, tree.parent_child hp, tree.parent_pathAt hp⟩

/-- The names of a node that is not the root. -/
theorem names_iff_denotes {s t : NodeId} (hs : s ∈ m.ids) (hs' : s ≠ root) (ht : t ∈ m.ids)
    (ht' : t ≠ root) {name raw : String} :
    Names name (m.pathAt s) raw (m.pathAt t) ↔ m.Denotes name s t raw := by
  obtain ⟨p, hp, hparent, hpath⟩ := tree.exists_parent_path hs hs'
  have hroot := tree.pathAt_ne_root hs hs'
  constructor
  · intro names
    generalize htarget : m.pathAt t = target at names
    cases names with
    | fromRoot rest =>
      obtain rfl : (m.pathAt t).text = rest := congrArg Path.text htarget
      exact .absolute
    | below rest =>
      rw [Path.descend_eq_child (.inl hroot)] at htarget
      obtain ⟨habove, rfl⟩ := (tree.child_eq_pathAt_iff hs ht ht').mp htarget.symm
      exact .below habove
    | beside hsharp hdot =>
      rw [hpath, Option.getD_some, Path.descend_eq_child (.inr hdot)] at htarget
      obtain ⟨habove, rfl⟩ := (tree.child_eq_pathAt_iff hp ht ht').mp htarget.symm
      exact .beside hparent habove
  · intro denotes
    cases denotes with
    | absolute => exact .fromRoot _
    | below habove =>
      rw [tree.pathAt_wayDown habove, ← Path.descend_eq_child (.inl hroot)]
      exact .below _
    | beside hparent' habove =>
      obtain rfl := Option.some.inj (hparent.symm.trans hparent')
      -- a key comes first, so the text is not taken for one of the other two notations
      obtain ⟨c, hc, hdot, hsharp⟩ := tree.wayDown_head habove
      have hdot' : (m.wayDown p t).toList.head? ≠ some '.' := by simpa [hc] using hdot
      have names : Names name (m.pathAt s) (m.wayDown p t)
          (((m.pathAt s).parent.getD .root).descend (m.wayDown p t)) :=
        .beside (by simpa [hc] using hsharp) hdot'
      rwa [hpath, Option.getD_some, Path.descend_eq_child (.inr hdot'),
        ← tree.pathAt_wayDown habove] at names

theorem names_root_iff {s : NodeId} (hs : s ∈ m.ids) (hs' : s ≠ root) {name raw : String} :
    Names name (m.pathAt s) raw .root ↔
      raw = "#" ++ name ++ "." ∨ (m.parent s = some root ∧ raw = "") := by
  obtain ⟨p, hp, hparent, hpath⟩ := tree.exists_parent_path hs hs'
  have hroot := tree.pathAt_ne_root hs hs'
  have htop : m.pathAt p = .root ↔ m.parent s = some root := by
    rw [hparent, Option.some_inj, ← tree.pathAt_root]
    exact ⟨tree.pathAt_inj hp tree.root_mem_ids, fun h => h ▸ rfl⟩
  constructor
  · intro names
    generalize htarget : Path.root = target at names
    cases names with
    | fromRoot rest =>
      obtain rfl : "" = rest := congrArg Path.text htarget
      exact .inl (String.append_empty)
    | below rest =>
      rw [Path.descend_eq_child (.inl hroot)] at htarget
      exact absurd (Path.child_eq_root_iff.mp htarget.symm).1 hroot
    | beside hsharp hdot =>
      rw [hpath, Option.getD_some, Path.descend_eq_child (.inr hdot)] at htarget
      exact .inr ((Path.child_eq_root_iff.mp htarget.symm).imp_left htop.mp)
  · rintro (rfl | ⟨hp', rfl⟩)
    · have names : Names name (m.pathAt s) ("#" ++ name ++ "." ++ "") ⟨""⟩ := .fromRoot ""
      rwa [String.append_empty] at names
    · have names : Names name (m.pathAt s) "" (((m.pathAt s).parent.getD .root).descend "") :=
        .beside (by simp) (by simp)
      rwa [hpath, Option.getD_some, htop.mpr hp', Path.descend_eq_child (.inr (by simp))] at names

theorem guardPath_eq_iff {i : NodeId} {n : Node C E} (hn : m.node? i = some n)
    {name raw : String} :
    guardPath name raw = n.path ↔
      raw = n.path.text ∨ raw = "#" ++ name ++ "." ++ n.path.text := by
  have hi := mem_ids.mpr ⟨n, hn⟩
  have hsharp : n.path.text.toList.head? ≠ some '#' := by
    rw [← pathAt_eq hn]
    by_cases hroot : i = root
    · simp [hroot, tree.pathAt_root, Path.root]
    · have habove := tree.root_mem_ancestors hi hroot
      obtain ⟨c, hc, -, hsharp⟩ := tree.wayDown_head habove
      rw [tree.pathAt_wayDown habove, tree.pathAt_root, Path.child_root, hc]
      simpa using hsharp
  have hplain : afterChartName? name n.path.text = none := by
    rw [Option.eq_none_iff_forall_ne_some]
    intro rest hrest
    refine hsharp ?_
    rw [afterChartName?_eq_some_iff.mp hrest]
    simp
  constructor
  · intro h
    unfold guardPath at h
    cases hafter : afterChartName? name raw with
    | none =>
      rw [hafter] at h
      exact .inl (congrArg Path.text h)
    | some rest =>
      rw [hafter] at h
      rw [← h]
      exact .inr (afterChartName?_eq_some_iff.mp hafter)
  · rintro (rfl | rfl)
    · rw [guardPath, hplain]
      rfl
    · rw [guardPath, afterChartName?_eq_some_iff.mpr rfl]
      rfl

end IsTree

end Chart

/-- The guard of a transition that waits for a state. -/
def Guard.waiting (state : Path) : Option (Guard C E) → Guard C E
  | none => .inState state
  | some g => g.within state

namespace TransitionSpec

variable {t : TransitionSpec C E} {chart trigger : String} {index : Path → Option NodeId}
  {source : Path}

theorem resolveGuard_of_none (h : t.inState = none) :
    t.resolveGuard chart index source trigger = .ok t.guard := by
  simp [resolveGuard, h]

theorem resolveGuard_eq_ok_iff {state : String} (h : t.inState = some state)
    {guard : Option (Guard C E)} :
    t.resolveGuard chart index source trigger = .ok guard ↔
      ∃ u, index (guardPath chart state) = some u ∧
        guard = some (.waiting (guardPath chart state) t.guard) := by
  cases hindex : index (guardPath chart state) with
  | none => simp [resolveGuard, h, hindex]
  | some u => cases hg : t.guard <;> simp [resolveGuard, h, hindex, hg, Guard.waiting, eq_comm]

end TransitionSpec

namespace ChartSpec

variable {spec : ChartSpec C E} {m : Chart C E}

theorem index_eq_some_iff_node (tree : spec.chart.IsTree) {p : Path} {i : NodeId} :
    spec.index p = some i ↔ ∃ n, spec.chart.node? i = some n ∧ p = n.path := by
  rw [index_eq_some_iff tree, tree.lookup_eq_ok_iff]
  exact exists_congr fun n => and_congr_right fun _ => eq_comm

theorem target_eq_iff (tree : spec.chart.IsTree) {t : TransitionSpec C E} {source : Path}
    {trigger raw : String} {c : Candidate C E}
    (h : t.resolve spec.name spec.index source trigger = .ok c) (htarget : t.target = some raw)
    {i : NodeId} {n : Node C E} (hn : spec.chart.node? i = some n) :
    c.target = i ↔ Names spec.name source raw n.path := by
  obtain ⟨path, hpath, hindex, -⟩ := TransitionSpec.resolve_eq_ok_iff.mp h
  obtain ⟨n', hn', rfl⟩ := (index_eq_some_iff_node tree).mp hindex
  simp only [TransitionSpec.resolveTarget, htarget] at hpath
  have hnames : targetPath spec.name source trigger raw = .ok n.path ↔
      Names spec.name source raw n.path := targetPath_eq_ok_iff
  rw [← hnames, hpath, Except.ok.injEq]
  constructor
  · rintro rfl
    rw [Option.some.inj (hn'.symm.trans hn)]
  · exact tree.path_inj hn' hn

/-- A transition resolves to what its text names, if it waits for no state that is not there. -/
theorem resolves_to_iff (tree : spec.chart.IsTree) {t : TransitionSpec C E} {source : Path}
    {trigger raw : String} (htarget : t.target = some raw) {i : NodeId} {n : Node C E}
    (hn : spec.chart.node? i = some n) :
    (∃ c, t.resolve spec.name spec.index source trigger = .ok c ∧ c.target = i) ↔
      Names spec.name source raw n.path ∧
        ∀ state, t.inState = some state → ∃ u, spec.index (guardPath spec.name state) = some u := by
  constructor
  · rintro ⟨c, hc, hci⟩
    refine ⟨(target_eq_iff tree hc htarget hn).mp hci, fun state hstate => ?_⟩
    obtain ⟨-, -, -, hguard, -⟩ := TransitionSpec.resolve_eq_ok_iff.mp hc
    obtain ⟨u, hu, -⟩ := (TransitionSpec.resolveGuard_eq_ok_iff hstate).mp hguard
    exact ⟨u, hu⟩
  · rintro ⟨names, known⟩
    have hguard : ∃ guard, t.resolveGuard spec.name spec.index source trigger = .ok guard := by
      cases hstate : t.inState with
      | none => exact ⟨_, TransitionSpec.resolveGuard_of_none hstate⟩
      | some state =>
        obtain ⟨u, hu⟩ := known state hstate
        exact ⟨_, (TransitionSpec.resolveGuard_eq_ok_iff hstate).mpr ⟨u, hu, rfl⟩⟩
    obtain ⟨guard, hguard⟩ := hguard
    refine ⟨⟨i, guard, t.internal || t.target.isNone, t.actions⟩, ?_, rfl⟩
    refine TransitionSpec.resolve_eq_ok_iff.mpr ⟨n.path, ?_, ?_, hguard, rfl, rfl⟩
    · simpa only [TransitionSpec.resolveTarget, htarget] using targetPath_eq_ok_iff.mpr names
    · exact (index_eq_some_iff_node tree).mpr ⟨n, hn, rfl⟩

theorem resolve_inState_iff {t : TransitionSpec C E} {source : Path} {trigger raw : String}
    {c c' : Candidate C E} (h : t.resolve spec.name spec.index source trigger = .ok c) :
    { t with inState := some raw }.resolve spec.name spec.index source trigger = .ok c' ↔
      ∃ u, spec.index (guardPath spec.name raw) = some u ∧
        c' = { c with guard := some (.waiting (guardPath spec.name raw) t.guard) } := by
  obtain ⟨path, hpath, hindex, -, hinternal, hactions⟩ := TransitionSpec.resolve_eq_ok_iff.mp h
  rw [TransitionSpec.resolve_eq_ok_iff]
  constructor
  · rintro ⟨path', hpath', hindex', hguard, hinternal', hactions'⟩
    obtain rfl := Except.ok.inj (hpath.symm.trans hpath')
    obtain ⟨u, hu, hguard⟩ := (TransitionSpec.resolveGuard_eq_ok_iff rfl).mp hguard
    have htarget : c.target = c'.target := Option.some.inj (hindex.symm.trans hindex')
    refine ⟨u, hu, ?_⟩
    rw [← hguard, htarget, hinternal, hactions]
    exact congrArg₂ (Candidate.mk c'.target c'.guard) hinternal' hactions'
  · rintro ⟨u, hu, rfl⟩
    exact ⟨path, hpath, hindex, (TransitionSpec.resolveGuard_eq_ok_iff rfl).mpr ⟨u, hu, rfl⟩,
      hinternal, hactions⟩

/-- Between the states of a built chart the notation is exact. A text resolves to the node that it
denotes from the source, and what a guard waits for is a path of the chart, with or without the
name of the chart in front. -/
theorem notation_exact (built : spec.build = .ok m) {s t : NodeId} {source target : Node C E}
    (hs : m.node? s = some source) (ht : m.node? t = some target) (hs' : s ≠ Chart.root)
    (ht' : t ≠ Chart.root) (tr : TransitionSpec C E) (trigger raw : String) :
    (tr.target = some raw →
      ((∃ c, tr.resolve spec.name spec.index source.path trigger = .ok c ∧ c.target = t) ↔
        m.Denotes spec.name s t raw ∧ ∀ state, tr.inState = some state →
          ∃ u n, m.node? u = some n ∧
            (state = n.path.text ∨ state = "#" ++ spec.name ++ "." ++ n.path.text))) ∧
    ∀ c, tr.resolve spec.name spec.index source.path trigger = .ok c → ∀ c',
      ({ tr with inState := some raw }.resolve spec.name spec.index source.path trigger = .ok c' ↔
        ∃ u n, m.node? u = some n ∧ c' = { c with guard := some (.waiting n.path tr.guard) } ∧
          (raw = n.path.text ∨ raw = "#" ++ spec.name ++ "." ++ n.path.text) ∧
          (u = t ↔ raw = target.path.text ∨ raw = "#" ++ spec.name ++ "." ++ target.path.text)) := by
  have tree := isTree_of_build built
  obtain ⟨-, rfl⟩ := build_eq_ok_iff.mp built
  constructor
  · intro htarget
    have hids : ∀ {i n}, spec.chart.node? i = some n → i ∈ spec.chart.ids := fun hn =>
      Chart.mem_ids.mpr ⟨_, hn⟩
    rw [resolves_to_iff tree htarget ht, ← Chart.pathAt_eq hs, ← Chart.pathAt_eq ht,
      tree.names_iff_denotes (hids hs) hs' (hids ht) ht']
    refine and_congr_right fun _ => forall_congr' fun state => imp_congr_right fun _ =>
      exists_congr fun u => ?_
    rw [index_eq_some_iff_node tree]
    exact exists_congr fun n => and_congr_right fun hn => tree.guardPath_eq_iff hn
  · intro c hc c'
    rw [resolve_inState_iff hc]
    constructor
    · rintro ⟨u, hu, rfl⟩
      obtain ⟨n, hn, hpath⟩ := (index_eq_some_iff_node tree).mp hu
      refine ⟨u, n, hn, by rw [hpath], (tree.guardPath_eq_iff hn).mp hpath, ?_⟩
      rw [← tree.guardPath_eq_iff ht, hpath]
      constructor
      · rintro rfl
        rw [Option.some.inj (hn.symm.trans ht)]
      · exact tree.path_inj hn ht
    · rintro ⟨u, n, hn, rfl, hraw, -⟩
      have hpath := (tree.guardPath_eq_iff hn).mpr hraw
      exact ⟨u, (index_eq_some_iff_node tree).mpr ⟨n, hn, hpath⟩, by rw [hpath]⟩

theorem target_root_iff (tree : spec.chart.IsTree) {i : NodeId} {n : Node C E}
    (hn : spec.chart.node? i = some n) (hne : i ≠ Chart.root) {t : TransitionSpec C E}
    {trigger : String} {c : Candidate C E}
    (h : t.resolve spec.name spec.index n.path trigger = .ok c) :
    c.target = Chart.root ↔ ∃ raw, t.target = some raw ∧ (raw = "#" ++ spec.name ++ "." ∨
      (spec.chart.parent i = some Chart.root ∧ raw = "")) := by
  cases ht : t.target with
  | none =>
    obtain ⟨path, hpath, hindex, -⟩ := TransitionSpec.resolve_eq_ok_iff.mp h
    simp only [TransitionSpec.resolveTarget, ht] at hpath
    obtain rfl := Except.ok.inj hpath
    obtain ⟨n', hn', hpath⟩ := (index_eq_some_iff_node tree).mp hindex
    obtain rfl := tree.path_inj hn hn' hpath
    simp [hne]
  | some raw =>
    obtain ⟨r, hr, -, hroot, -⟩ := tree.rooted
    rw [target_eq_iff tree h ht hr, hroot, ← Chart.pathAt_eq hn,
      tree.names_root_iff (Chart.mem_ids.mpr ⟨n, hn⟩) hne]
    simp

/-- A candidate targets the root just when the transition declared for it does so by the name of the
chart with a dot after it or, right below the root, by the empty text. -/
theorem root_targeted_iff (built : spec.build = .ok m) {i : NodeId} {n : Node C E}
    (hn : m.node? i = some n) :
    ∃ s, spec.Declares m i s ∧
      (∀ event, List.Forall₂ (fun t c => c.target = Chart.root ↔ ∃ raw, t.target = some raw ∧
        (raw = "#" ++ spec.name ++ "." ∨ (m.parent i = some Chart.root ∧ raw = "")))
        (s.declared event) (n.candidates event)) ∧
      List.Forall₂ (fun d a => a.candidate.target = Chart.root ↔ ∃ raw, d.2.target = some raw ∧
        (raw = "#" ++ spec.name ++ "." ∨ (m.parent i = some Chart.root ∧ raw = "")))
        s.after n.after.toList := by
  have tree := isTree_of_build built
  obtain ⟨hproblems, rfl⟩ := build_eq_ok_iff.mp built
  obtain ⟨s, declares, unique, mirrors⟩ := (laidOut_chart hproblems).declared hn
  refine ⟨s, declares, ?_⟩
  by_cases hroot : i = Chart.root
  · -- the root declares no transition
    subst hroot
    obtain rfl := unique _ .root
    refine ⟨fun event => ?_, ?_⟩
    · rw [List.forall₂_nil_left_iff.mp (mirrors.candidates event)]
      exact .nil
    · rw [List.forall₂_nil_left_iff.mp mirrors.after]
      exact .nil
  · refine ⟨fun event => (mirrors.candidates event).imp fun t c resolves => ?_,
      mirrors.after.imp fun d a resolves => ?_⟩
    · exact target_root_iff tree hn hroot resolves.1
    · exact target_root_iff tree hn hroot resolves.2.1

end ChartSpec

/-- The transition of the idle region to the busy one, once the relay rests. -/
def toBusy : TransitionSpec Unit Signal := { target := some "busy", inState := some "#relay.rest" }

theorem toBusy_names_busy :
    ∃ c, toBusy.resolve relay.name relay.index ⟨"work.left.idle"⟩ "GO" = .ok c ∧ c.target = 4 := by
  have exact_names := ChartSpec.notation_exact relay_built (s := 3) (t := 4) rfl rfl (by decide)
    (by decide) toBusy "GO" "busy"
  refine (exact_names.1 rfl).mpr ⟨.beside (p := 2) (by decide +kernel) (by decide +kernel), ?_⟩
  rintro state hstate
  obtain rfl := Option.some.inj hstate
  exact ⟨7, _, rfl, .inr rfl⟩

/-- Both transitions of the lamp lead to the root, by its two names. -/
def lamp : ChartSpec Unit Signal where
  name := "lamp"
  context := ()
  initial := some "off"
  states := [
    { key := "off"
      shape := .atomic
      on := [("START", { target := some "on" })] },
    { key := "on"
      shape := .atomic
      on := [("GO", { target := some "#lamp." })]
      after := [({ Duration.zero with secs := 1 }, { target := some "" })] }]

theorem lamp_built : lamp.build = .ok lamp.chart := by
  refine ChartSpec.build_eq_ok_iff.mpr ⟨?_, rfl⟩
  exact List.isEmpty_iff.mp (by decide +kernel)

theorem lamp_root_targeted : ∃ s n, lamp.Declares lamp.chart 2 s ∧ lamp.chart.node? 2 = some n ∧
    List.Forall₂ (fun t c => c.target = Chart.root ↔ ∃ raw, t.target = some raw ∧
      (raw = "#lamp." ∨ (lamp.chart.parent 2 = some Chart.root ∧ raw = "")))
      (s.declared "GO") (n.candidates "GO") := by
  obtain ⟨s, declares, candidates, -⟩ := ChartSpec.root_targeted_iff lamp_built (i := 2) rfl
  exact ⟨s, _, declares, rfl, candidates "GO"⟩

theorem lamp_targets_root : ∃ m, lamp.build = .ok m ∧ ∃ n, m.node? 2 = some n ∧
    (∃ c ∈ n.candidates "GO", c.target = Chart.root) ∧
    ∃ d ∈ n.after, d.candidate.target = Chart.root :=
  ⟨_, lamp_built, _, rfl, ⟨_, List.mem_singleton.mpr rfl, rfl⟩, _, rfl, rfl⟩

end Statechart
