import Mathlib.Data.List.Nodup
import Statechart.Proofs.Arena
import Statechart.Proofs.TransitionChecks

/-! What a build reports. A walk through the declared tree enters each state, goes through the
states in it and leaves it again, and on the way come all checks of the tree; those of the
transitions follow. A build fails just when a check does, and it reports the checks that fail in
this order, of each transition the first. -/
namespace Statechart

variable {C E : Type}

/-- A state of a declared tree as it is entered, or as it is left. -/
inductive Visit (C E : Type) where
  | enter (e : Entry C E)
  | leave (e : Entry C E)

def Visit.entry : Visit C E → Entry C E
  | .enter e | .leave e => e

namespace StateSpec

mutual
def walk (ancestors : List NodeId) (path : Path) (id : NodeId) : StateSpec C E → List (Visit C E)
  | ⟨key, shape, initial, entry, exit, on, after, states⟩ =>
    let e := entryAt ancestors path id ⟨key, shape, initial, entry, exit, on, after, states⟩
    .enter e :: walkAll (id :: ancestors) path (id + 1) states ++ [.leave e]

def walkAll (ancestors : List NodeId) (path : Path) (next : NodeId) :
    List (StateSpec C E) → List (Visit C E)
  | [] => []
  | s :: rest =>
    walk ancestors (path.child s.key) next s ++ walkAll ancestors path (next + s.size) rest
end

end StateSpec

namespace Entry

def label (chart : String) (e : Entry C E) : String := StateSpec.label chart e.path

/-- The root has no key of its own. -/
def enterChecks (spec : ChartSpec C E) (e : Entry C E) : List Check :=
  [⟨e.id == Chart.root || isValidKey e.spec.key, .invalidKey e.spec.key⟩,
    ⟨!spec.entries.any fun d => decide (d.id < e.id) && d.path == e.path,
      .duplicateState (e.label spec.name)⟩,
    ⟨decide (e.spec.after.length ≤ 1), .duplicateDelay (e.label spec.name)⟩]

def leaveChecks (spec : ChartSpec C E) (e : Entry C E) : List Check :=
  let label := e.label spec.name
  let initial := e.spec.initial.getD ""
  [⟨e.spec.shape == .compound || e.spec.initial.isNone, .initialOnNonCompound label initial⟩,
    ⟨e.spec.shape != .atomic || e.spec.states.isEmpty, .atomicWithChildren label⟩,
    ⟨e.spec.shape == .atomic || !e.spec.states.isEmpty, .noChildren label⟩,
    ⟨e.spec.shape != .compound || e.spec.states.isEmpty || e.spec.initial.isSome,
      .missingInitial label⟩,
    ⟨e.spec.shape != .compound || e.spec.initial.all fun key => e.spec.states.any (·.key == key),
      .unknownInitial label initial⟩]

end Entry

def Visit.checks (spec : ChartSpec C E) : Visit C E → List Check
  | .enter e => e.enterChecks spec
  | .leave e => e.leaveChecks spec

namespace StateSpec

theorem walk_eq (ancestors : List NodeId) (path : Path) (id : NodeId) (s : StateSpec C E) :
    s.walk ancestors path id = .enter (s.entryAt ancestors path id) ::
      walkAll (id :: ancestors) path (id + 1) s.states ++
        [.leave (s.entryAt ancestors path id)] := by
  cases s
  rw [walk]

/-- A walk enters each state of the layout once and leaves it once. -/
theorem walk_perm (s : StateSpec C E) :
    ∀ (ancestors : List NodeId) (path : Path) (id : NodeId), (s.walk ancestors path id).Perm
      ((s.layout ancestors path id).map .enter ++ (s.layout ancestors path id).map .leave) := by
  induction s using tree_induction with
  | step s ih =>
    have all : ∀ ss : List (StateSpec C E), (∀ t ∈ ss, t ∈ s.states) →
        ∀ (ancestors : List NodeId) (path : Path) (next : NodeId),
          (walkAll ancestors path next ss).Perm
            ((layoutAll ancestors path next ss).map .enter ++
              (layoutAll ancestors path next ss).map .leave) := by
      intro ss hss
      induction ss with
      | nil => intros; simp [walkAll, layoutAll]
      | cons t rest iht =>
        intro ancestors path next
        have ht := ih t (hss t List.mem_cons_self) ancestors (path.child t.key) next
        have hrest := iht (fun t ht => hss t (List.mem_cons_of_mem _ ht)) ancestors path
          (next + t.size)
        rw [walkAll, layoutAll, List.map_append, List.map_append, List.append_assoc]
        refine (ht.append hrest).trans ?_
        rw [List.append_assoc]
        exact (List.perm_append_comm_assoc ..).append_left _
    intro ancestors path id
    have hbelow := all s.states (fun _ h => h) (id :: ancestors) path (id + 1)
    rw [walk_eq, layout_eq, List.map_cons, List.map_cons, List.cons_append, List.cons_append]
    refine .cons _ ?_
    -- the state itself is left last of all
    refine (List.perm_append_singleton ..).trans ((hbelow.cons _).trans ?_)
    exact List.perm_middle.symm

theorem mem_walk {s : StateSpec C E} {ancestors : List NodeId} {path : Path} {id : NodeId}
    {v : Visit C E} :
    v ∈ s.walk ancestors path id ↔ v.entry ∈ s.layout ancestors path id := by
  rw [(s.walk_perm ancestors path id).mem_iff]
  cases v <;> simp [Visit.entry]

theorem failed_leaveChecks (spec : ChartSpec C E) (e : Entry C E) :
    Check.failed (e.leaveChecks spec) =
      e.spec.initialProblems (label spec.name e.path) ++
        e.spec.childProblems (label spec.name e.path) := by
  unfold Entry.leaveChecks initialProblems childProblems
  cases hs : e.spec.shape <;> cases hi : e.spec.initial <;>
    cases he : e.spec.states.isEmpty <;> simp [Check.failed_cons, Entry.label]

/-- The paths seen are those of the entries with a smaller number. -/
def Seen (spec : ChartSpec C E) (seen : List Path) (id : NodeId) : Prop :=
  ∀ p, p ∈ seen ↔ ∃ d ∈ spec.entries, d.id < id ∧ d.path = p

theorem Seen.block {spec : ChartSpec C E} {seen : List Path} {next n : Nat}
    (h : Seen spec seen next) {es : List (Entry C E)} (hes : ∀ e ∈ es, e ∈ spec.entries)
    (hids : es.map (·.id) = List.range' next n) :
    Seen spec (es.map (·.path) ++ seen) (next + n) := by
  have mem_ids : ∀ i : Nat, (∃ e ∈ es, e.id = i) ↔ next ≤ i ∧ i < next + n := by
    intro i
    rw [← List.mem_range'_1, ← hids, List.mem_map]
  intro p
  rw [List.mem_append, h p, List.mem_map]
  constructor
  · rintro (⟨e, he, hp⟩ | ⟨d, hd, hlt, hp⟩)
    · exact ⟨e, hes e he, ((mem_ids e.id).mp ⟨e, he, rfl⟩).2, hp⟩
    · exact ⟨d, hd, Nat.lt_of_lt_of_le hlt (Nat.le_add_right ..), hp⟩
  · rintro ⟨d, hd, hlt, hp⟩
    by_cases hid : d.id < next
    · exact .inr ⟨d, hd, hid, hp⟩
    · obtain ⟨e, he, hed⟩ := (mem_ids d.id).mpr ⟨Nat.le_of_not_lt hid, hlt⟩
      obtain rfl := ChartSpec.entry_unique (hes e he) hd hed
      exact .inl ⟨e, he, hp⟩

theorem failed_enterChecks {spec : ChartSpec C E} {seen : List Path} {ancestors : List NodeId}
    {path : Path} {id : NodeId} (h : Seen spec seen id) (s : StateSpec C E) :
    Check.failed ((s.entryAt ancestors path id).enterChecks spec) =
      (if id == Chart.root || isValidKey s.key then [] else [.invalidKey s.key]) ++
        ((if seen.contains path then [.duplicateState (label spec.name path)] else []) ++
          if s.after.length ≤ 1 then [] else [.duplicateDelay (label spec.name path)]) := by
  have hseen : (spec.entries.any fun d => decide (d.id < id) && d.path == path) =
      seen.contains path := by
    rw [Bool.eq_iff_iff, List.contains_iff_mem, h path]
    simp
  have hchecks : (s.entryAt ancestors path id).enterChecks spec =
      [⟨id == Chart.root || isValidKey s.key, .invalidKey s.key⟩,
        ⟨!seen.contains path, .duplicateState (label spec.name path)⟩,
        ⟨decide (s.after.length ≤ 1), .duplicateDelay (label spec.name path)⟩] := by
    rw [← hseen]
    rfl
  rw [hchecks, Check.failed_cons, Check.failed_cons, Check.failed_cons, Check.failed_nil]
  cases seen.contains path <;> simp

theorem problems_walk (spec : ChartSpec C E) (s : StateSpec C E) :
    ∀ {ancestors : List NodeId} {path : Path} {id : NodeId} {seen : List Path},
      (∀ e ∈ s.layout ancestors path id, e ∈ spec.entries) → Seen spec seen id →
        (if id == Chart.root || isValidKey s.key then [] else [.invalidKey s.key]) ++
            s.problems spec.name seen path =
          (s.walk ancestors path id).flatMap fun v => Check.failed (v.checks spec) := by
  induction s using tree_induction with
  | step s ih =>
    have all : ∀ ss : List (StateSpec C E), (∀ t ∈ ss, t ∈ s.states) →
        ∀ {ancestors : List NodeId} {path : Path} {next : NodeId} {seen : List Path}, 0 < next →
          (∀ e ∈ layoutAll ancestors path next ss, e ∈ spec.entries) → Seen spec seen next →
            problemsAll spec.name seen path ss =
              (walkAll ancestors path next ss).flatMap fun v => Check.failed (v.checks spec) := by
      intro ss hss
      induction ss with
      | nil => intros; simp [problemsAll, walkAll]
      | cons t rest iht =>
        intro ancestors path next seen hnext hlisted hseen
        rw [layoutAll] at hlisted
        have hhere := fun e he => hlisted e (List.mem_append_left _ he)
        have hthere := fun e he => hlisted e (List.mem_append_right _ he)
        have hbelow := hseen.block hhere (map_id_layout ..)
        have hkey : (next == Chart.root) = false := beq_false_of_ne (Nat.ne_of_gt hnext)
        have ht := ih t (hss t List.mem_cons_self) hhere hseen
        rw [hkey, Bool.false_or] at ht
        rw [problemsAll, walkAll, List.flatMap_append, ← ht,
          map_path_layout t [] ancestors (path.child t.key) 0 next]
        rw [iht (fun t ht => hss t (List.mem_cons_of_mem _ ht)) (Nat.add_pos_left hnext _)
          hthere hbelow]
    intro ancestors path id seen hlisted hseen
    rw [layout_eq] at hlisted
    have hself : Seen spec ([s.entryAt ancestors path id].map (·.path) ++ seen) (id + 1) :=
      hseen.block (fun e he => hlisted e (List.mem_cons.mpr (.inl (List.mem_singleton.mp he)))) rfl
    have hbelow := all s.states (fun _ h => h) (Nat.succ_pos id)
      (fun e he => hlisted e (List.mem_cons_of_mem _ he)) hself
    rw [walk_eq, List.cons_append, List.flatMap_cons, List.flatMap_append, ← hbelow]
    simp only [Visit.checks, List.flatMap_singleton]
    rw [failed_enterChecks hseen, failed_leaveChecks, problems_eq]
    simp only [List.append_assoc]
    rfl

end StateSpec

def ChartSpec.declares (spec : ChartSpec C E) (p : Path) : Bool := spec.entries.any (·.path == p)

/-- The target and the state of the guard are declared, and the target is not the root by name. -/
structure TransitionSpec.Resolvable (spec : ChartSpec C E) (source : Path)
    (t : TransitionSpec C E) : Prop where
  target : ∀ raw, t.target = some raw → raw ≠ "#" ++ spec.name ∧
    ∃ e ∈ spec.entries, Names spec.name source raw e.path
  guard : ∀ raw, t.inState = some raw → ∃ e ∈ spec.entries, e.path = guardPath spec.name raw

namespace ChartSpec

variable {spec : ChartSpec C E}

/-- What the builder asks of a declaration. -/
structure Valid (spec : ChartSpec C E) : Prop where
  keys : ∀ e ∈ spec.entries, e.id ≠ Chart.root →
    e.spec.key ≠ "" ∧ '.' ∉ e.spec.key.toList ∧ '#' ∉ e.spec.key.toList
  paths : (spec.entries.map (·.path)).Nodup
  childless : ∀ e ∈ spec.entries, e.spec.shape = .atomic → e.spec.states = []
  inhabited : ∀ e ∈ spec.entries, e.spec.shape ≠ .atomic → e.spec.states ≠ []
  initial : ∀ e ∈ spec.entries, e.spec.shape = .compound →
    ∃ t ∈ e.spec.states, e.spec.initial = some t.key
  plain : ∀ e ∈ spec.entries, e.spec.shape ≠ .compound → e.spec.initial = none
  delay : ∀ e ∈ spec.entries, e.spec.after.length ≤ 1
  events : ∀ e ∈ spec.entries, ∀ x ∈ e.spec.on, x.2.Resolvable spec e.path
  delayed : ∀ e ∈ spec.entries, ∀ x ∈ e.spec.after, x.2.Resolvable spec e.path

/-- The problems to report, in order: those of the tree on a walk through it, then those of event
transitions and of delayed ones in document order. -/
def violations (spec : ChartSpec C E) : List Problem :=
  Check.failed ((spec.root.walk [] .root Chart.root).flatMap (Visit.checks spec)) ++
    (spec.entries.flatMap fun e => e.spec.on.filterMap fun x =>
      x.2.fault? spec.name spec.declares e.path x.1) ++
    spec.entries.filterMap fun e => e.spec.after.head?.bind fun x =>
      x.2.fault? spec.name spec.declares e.path (Trigger.delayText e.path)

theorem index_isSome (spec : ChartSpec C E) :
    (fun p => (spec.index p).isSome) = spec.declares := by
  funext p
  rw [index, idAt, Option.isSome_map, declares, List.isSome_find?]

theorem problem?_resolve_of_mem {e : Entry C E} (he : e ∈ spec.entries) (t : TransitionSpec C E)
    (trigger : String) :
    problem? (t.resolve spec.name spec.index e.path trigger) =
      t.fault? spec.name spec.declares e.path trigger := by
  have hsource : (spec.index e.path).isSome = true := by
    rw [show (spec.index e.path).isSome = spec.declares e.path from
      congrFun (index_isSome spec) e.path]
    exact List.any_eq_true.mpr ⟨e, he, beq_self_eq_true _⟩
  rw [TransitionSpec.problem?_resolve t spec.name trigger hsource, index_isSome]

theorem problems_eq_violations (spec : ChartSpec C E) : spec.problems = spec.violations := by
  have htree : spec.treeProblems =
      Check.failed ((spec.root.walk [] .root Chart.root).flatMap (Visit.checks spec)) := by
    have hseen : StateSpec.Seen spec [] Chart.root := by
      intro p
      simp [Chart.root]
    rw [Check.failed_flatMap]
    exact StateSpec.problems_walk spec spec.root (fun e he => he) hseen
  have hevents : spec.eventProblems = spec.entries.flatMap fun e => e.spec.on.filterMap fun x =>
      x.2.fault? spec.name spec.declares e.path x.1 := by
    refine List.flatMap_congr fun e he => ?_
    rw [Entry.resolveOn, List.filterMap_map]
    refine List.filterMap_congr fun x _ => ?_
    exact problem?_resolve_of_mem he x.2 x.1
  have hdelays : spec.delayProblems = spec.entries.filterMap fun e =>
      e.spec.after.head?.bind fun x =>
        x.2.fault? spec.name spec.declares e.path (Trigger.delayText e.path) := by
    refine List.filterMap_congr fun e he => ?_
    rw [Entry.resolveAfter]
    cases e.spec.after.head? with
    | none => rfl
    | some x => exact problem?_resolve_of_mem he x.2 _
  rw [problems, htree, hevents, hdelays, violations]

theorem fault?_eq_none_iff {t : TransitionSpec C E} {source : Path} {trigger : String} :
    t.fault? spec.name spec.declares source trigger = none ↔ t.Resolvable spec source := by
  have hdeclares : ∀ p, spec.declares p = true ↔ ∃ e ∈ spec.entries, e.path = p := by
    intro p
    simp [declares]
  have htarget : (∀ c ∈ t.targetChecks spec.name spec.declares source trigger, c.holds = true) ↔
      ∀ raw, t.target = some raw → raw ≠ "#" ++ spec.name ∧
        ∃ e ∈ spec.entries, Names spec.name source raw e.path := by
    unfold TransitionSpec.targetChecks
    cases t.target with
    | none => simp
    | some raw =>
      have hknown : (targetPath spec.name source trigger raw).toOption.any spec.declares = true ↔
          ∃ e ∈ spec.entries, Names spec.name source raw e.path := by
        have hnames : ∀ p, Names spec.name source raw p ↔
            targetPath spec.name source trigger raw = .ok p := fun p => targetPath_eq_ok_iff.symm
        simp only [hnames]
        cases targetPath spec.name source trigger raw with
        | error problem => simp [Except.toOption]
        | ok p => simp [Except.toOption, hdeclares, eq_comm]
      simp [hknown]
  have hguard : (∀ c ∈ t.guardChecks spec.name spec.declares source trigger, c.holds = true) ↔
      ∀ raw, t.inState = some raw → ∃ e ∈ spec.entries, e.path = guardPath spec.name raw := by
    unfold TransitionSpec.guardChecks
    cases t.inState <;> simp [hdeclares]
  rw [TransitionSpec.fault?, List.head?_eq_none_iff, Check.failed_eq_nil_iff,
    List.forall_mem_append, htarget, hguard]
  exact ⟨fun h => ⟨h.1, h.2⟩, fun h => ⟨h.target, h.guard⟩⟩

theorem pairwise_id_entries (spec : ChartSpec C E) :
    spec.entries.Pairwise fun d e => (d.id : Nat) < e.id := by
  have h : (spec.entries.map (·.id)).Pairwise fun i j : Nat => i < j := by
    rw [map_id_entries]
    exact List.pairwise_lt_range
  exact List.pairwise_map.mp h

theorem nodup_paths_iff (spec : ChartSpec C E) : (spec.entries.map (·.path)).Nodup ↔
    ∀ e ∈ spec.entries, ∀ d ∈ spec.entries, (d.id : Nat) < e.id → d.path ≠ e.path := by
  constructor
  · intro nodup e he d hd hlt hpath
    obtain rfl := List.inj_on_of_nodup_map nodup hd he hpath
    exact Nat.lt_irrefl _ hlt
  · intro h
    refine List.pairwise_map.mpr ((pairwise_id_entries spec).imp_of_mem ?_)
    intro d e hd he hlt
    exact h e he d hd hlt

theorem enterChecks_hold_iff {e : Entry C E} : (∀ c ∈ e.enterChecks spec, c.holds = true) ↔
    (e.id ≠ Chart.root → e.spec.key ≠ "" ∧ '.' ∉ e.spec.key.toList ∧ '#' ∉ e.spec.key.toList) ∧
      (∀ d ∈ spec.entries, (d.id : Nat) < e.id → d.path ≠ e.path) ∧ e.spec.after.length ≤ 1 := by
  have hkey : (e.id == Chart.root || isValidKey e.spec.key) = true ↔ (e.id ≠ Chart.root →
      e.spec.key ≠ "" ∧ '.' ∉ e.spec.key.toList ∧ '#' ∉ e.spec.key.toList) := by
    rw [Bool.or_eq_true, or_iff_not_imp_left]
    simp [isValidKey, and_assoc]
  simp only [Entry.enterChecks, List.forall_mem_cons, hkey]
  simp

theorem leaveChecks_hold_iff {e : Entry C E} : (∀ c ∈ e.leaveChecks spec, c.holds = true) ↔
    (e.spec.shape = .atomic → e.spec.states = []) ∧
      (e.spec.shape ≠ .atomic → e.spec.states ≠ []) ∧
      (e.spec.shape = .compound → ∃ t ∈ e.spec.states, e.spec.initial = some t.key) ∧
      (e.spec.shape ≠ .compound → e.spec.initial = none) := by
  simp only [Entry.leaveChecks, List.forall_mem_cons]
  cases hs : e.spec.shape with
  | atomic => simp [and_comm]
  | parallel => simp [and_comm]
  | compound =>
    cases hi : e.spec.initial with
    | none => cases e.spec.states <;> simp
    | some key => simp [@eq_comm _ key]

/-- As a walk comes to every state, all checks of the tree hold if those of each state do. -/
theorem failed_walk_eq_nil_iff (spec : ChartSpec C E) :
    Check.failed ((spec.root.walk [] .root Chart.root).flatMap (Visit.checks spec)) = [] ↔
      ∀ e ∈ spec.entries, (∀ c ∈ e.enterChecks spec, c.holds = true) ∧
        ∀ c ∈ e.leaveChecks spec, c.holds = true := by
  rw [Check.failed_eq_nil_iff]
  constructor
  · intro h e he
    have hvisit : ∀ v : Visit C E, v.entry = e → ∀ c ∈ v.checks spec, c.holds = true :=
      fun v hv c hc => h c (List.mem_flatMap.mpr ⟨v, StateSpec.mem_walk.mpr (hv ▸ he), hc⟩)
    exact ⟨hvisit (.enter e) rfl, hvisit (.leave e) rfl⟩
  · intro h c hc
    obtain ⟨v, hv, hc⟩ := List.mem_flatMap.mp hc
    have he := h v.entry (StateSpec.mem_walk.mp hv)
    cases v with
    | enter e => exact he.1 c hc
    | leave e => exact he.2 c hc

theorem delayed_fault?_eq_none_iff {e : Entry C E} (hdelay : e.spec.after.length ≤ 1) :
    (e.spec.after.head?.bind fun x =>
        x.2.fault? spec.name spec.declares e.path (Trigger.delayText e.path)) = none ↔
      ∀ x ∈ e.spec.after, x.2.Resolvable spec e.path := by
  cases hafter : e.spec.after with
  | nil => simp
  | cons x rest =>
    have hrest : rest = [] := by
      rw [hafter, List.length_cons] at hdelay
      exact List.length_eq_zero_iff.mp (by omega)
    subst hrest
    simpa using fault?_eq_none_iff

theorem violations_eq_nil_iff : spec.violations = [] ↔ spec.Valid := by
  rw [violations, List.append_eq_nil_iff, List.append_eq_nil_iff, failed_walk_eq_nil_iff,
    List.flatMap_eq_nil_iff, List.filterMap_eq_nil_iff]
  simp only [enterChecks_hold_iff, leaveChecks_hold_iff, List.filterMap_eq_nil_iff,
    fault?_eq_none_iff]
  constructor
  · rintro ⟨⟨htree, hevents⟩, hdelays⟩
    exact {
      keys := fun e he => (htree e he).1.1
      paths := (nodup_paths_iff spec).mpr fun e he => (htree e he).1.2.1
      childless := fun e he => (htree e he).2.1
      inhabited := fun e he => (htree e he).2.2.1
      initial := fun e he => (htree e he).2.2.2.1
      plain := fun e he => (htree e he).2.2.2.2
      delay := fun e he => (htree e he).1.2.2
      events := hevents
      delayed := fun e he => (delayed_fault?_eq_none_iff (htree e he).1.2.2).mp (hdelays e he) }
  · intro valid
    refine ⟨⟨fun e he => ⟨⟨valid.keys e he, ?_, valid.delay e he⟩, valid.childless e he,
      valid.inhabited e he, valid.initial e he, valid.plain e he⟩, valid.events⟩, fun e he => ?_⟩
    · exact (nodup_paths_iff spec).mp valid.paths e he
    · exact (delayed_fault?_eq_none_iff (valid.delay e he)).mpr (valid.delayed e he)

/-- A build accepts the valid declarations and no others. If one problem is to be reported the build
fails with that alone, else with all of them. -/
theorem build_judges (spec : ChartSpec C E) :
    ((∃ m, spec.build = .ok m) ↔ spec.Valid) ∧
      ∀ p, spec.build = .error p ↔ spec.violations = [p] ∨
        (2 ≤ spec.violations.length ∧ p = .several spec.violations) := by
  constructor
  · simp only [build_eq_ok_iff, problems_eq_violations, violations_eq_nil_iff]
    exact ⟨fun ⟨m, h⟩ => h.1, fun h => ⟨spec.chart, h, rfl⟩⟩
  · intro p
    unfold build
    rw [problems_eq_violations]
    rcases spec.violations with _ | ⟨q, _ | ⟨q', rest⟩⟩ <;> simp [Problem.report, eq_comm]

end ChartSpec

/-- A clock with a problem of its keys, one of an initial state and one of a target. -/
def faultyClock : ChartSpec Unit Signal where
  name := "clock"
  context := ()
  initial := some "off"
  states := [
    { key := "off"
      shape := .atomic
      on := [("GO", { target := some "of", inState := some "on" })] },
    { key := "broken"
      shape := .compound
      initial := some "missing"
      states := [{ key := "a", shape := .atomic }] },
    { key := "bad.key", shape := .atomic }]

example : faultyClock.violations = [.unknownInitial "broken" "missing", .invalidKey "bad.key",
    .unknownTarget ⟨"off"⟩ "GO" "of"] := by
  rfl

end Statechart
