import Statechart.Proofs.Built

/-! What resolving a transition reports. A target that is given must not be the root by its name and
must name a declared state, and so must the state that a guard asks for; of these checks the first
that fails is the problem of the transition. -/
namespace Statechart

variable {C E : Type}

/-- Something asked of a declaration, and the problem that is reported if it does not hold. -/
structure Check where
  holds : Bool
  problem : Problem

def Check.failed (checks : List Check) : List Problem :=
  (checks.filter (!·.holds)).map (·.problem)

namespace Check

@[simp] theorem failed_nil : failed [] = [] := rfl

theorem failed_cons (c : Check) (rest : List Check) :
    failed (c :: rest) = (if c.holds then [] else [c.problem]) ++ failed rest := by
  by_cases h : c.holds = true <;> simp [failed, h]

theorem failed_append (cs ds : List Check) : failed (cs ++ ds) = failed cs ++ failed ds := by
  simp [failed]

theorem failed_eq_nil_iff {checks : List Check} :
    failed checks = [] ↔ ∀ c ∈ checks, c.holds = true := by
  simp [failed, List.filter_eq_nil_iff]

theorem failed_flatMap {α : Type} (l : List α) (f : α → List Check) :
    failed (l.flatMap f) = l.flatMap fun a => failed (f a) := by
  induction l with
  | nil => rfl
  | cons a rest ih => rw [List.flatMap_cons, failed_append, ih, List.flatMap_cons]

end Check

/-- The path that the target of a transition names. -/
inductive Names (chart : String) (source : Path) : String → Path → Prop where
  | fromRoot (rest : String) : Names chart source ("#" ++ chart ++ "." ++ rest) ⟨rest⟩
  | below (rest : String) : Names chart source ("." ++ rest) (source.descend rest)
  | beside {raw : String} : raw.toList.head? ≠ some '#' → raw.toList.head? ≠ some '.' →
      Names chart source raw ((source.parent.getD .root).descend raw)

theorem afterChartName?_eq_some_iff {chart raw rest : String} :
    afterChartName? chart raw = some rest ↔ raw = "#" ++ chart ++ "." ++ rest := by
  have hlead : ∀ cs : List Char, raw.toList = '#' :: chart.toList ++ ['.'] ++ cs ↔
      raw = "#" ++ chart ++ "." ++ String.ofList cs := by
    intro cs
    rw [← String.toList_inj]
    simp
  unfold afterChartName?
  dsimp only
  constructor
  · intro h
    split at h
    · rename_i hprefix
      obtain ⟨cs, hcs⟩ := List.isPrefixOf_iff_prefix.mp hprefix
      obtain rfl := Option.some.inj h
      rw [← hcs, List.drop_left]
      exact (hlead cs).mp hcs.symm
    · cases h
  · intro h
    have hraw : raw.toList = '#' :: chart.toList ++ ['.'] ++ rest.toList := by
      rw [hlead, String.ofList_toList]
      exact h
    rw [hraw, if_pos (List.isPrefixOf_iff_prefix.mpr (List.prefix_append ..)), List.drop_left,
      String.ofList_toList]

theorem targetPath_root {chart trigger : String} {source : Path} :
    targetPath chart source trigger ("#" ++ chart) = .error (.rootTarget source trigger) := by
  have hraw : ("#" ++ chart).toList = '#' :: chart.toList := by simp
  rw [targetPath, hraw]
  exact if_pos rfl

theorem targetPath_eq_ok_iff {chart trigger raw : String} {source p : Path} :
    targetPath chart source trigger raw = .ok p ↔ Names chart source raw p := by
  constructor
  · intro h
    unfold targetPath at h
    split at h
    · split at h
      · cases h
      · split at h
        · rename_i rest hrest
          obtain rfl := Except.ok.inj h
          rw [afterChartName?_eq_some_iff.mp hrest]
          exact .fromRoot rest
        · cases h
    · rename_i below hraw
      obtain rfl := Except.ok.inj h
      have hbelow : raw = "." ++ String.ofList below := by
        rw [← String.toList_inj, hraw]
        simp
      rw [hbelow]
      exact .below _
    · rename_i hsharp hdot
      obtain rfl := Except.ok.inj h
      refine .beside (fun h => ?_) (fun h => ?_)
      · obtain ⟨name, hname⟩ := List.head?_eq_some_iff.mp h
        exact hsharp name hname
      · obtain ⟨below, hbelow⟩ := List.head?_eq_some_iff.mp h
        exact hdot below hbelow
  · intro names
    cases names with
    | fromRoot rest =>
      have hraw : ("#" ++ chart ++ "." ++ rest).toList =
          '#' :: (chart.toList ++ '.' :: rest.toList) := by simp
      have hname : chart.toList ++ '.' :: rest.toList ≠ chart.toList := by simp
      rw [targetPath, hraw]
      exact (if_neg hname).trans (by rw [afterChartName?_eq_some_iff.mpr rfl])
    | below rest =>
      have hraw : ("." ++ rest).toList = '.' :: rest.toList := by simp
      rw [targetPath, hraw]
      change Except.ok (source.descend (String.ofList rest.toList)) = _
      rw [String.ofList_toList]
    | beside hsharp hdot =>
      unfold targetPath
      split
      · rename_i name hraw
        exact absurd (by rw [hraw]; rfl) hsharp
      · rename_i below hraw
        exact absurd (by rw [hraw]; rfl) hdot
      · rfl

theorem targetPath_error {chart trigger raw : String} {source : Path} {problem : Problem}
    (hne : raw ≠ "#" ++ chart) (h : targetPath chart source trigger raw = .error problem) :
    problem = .unknownTarget source trigger raw := by
  unfold targetPath at h
  split at h
  · rename_i name hraw
    split at h
    · rename_i hname
      refine absurd (String.toList_inj.mp ?_) hne
      rw [hraw, hname]
      simp
    · split at h
      · cases h
      · exact (Except.error.inj h).symm
  · cases h
  · cases h

namespace TransitionSpec

def targetChecks (t : TransitionSpec C E) (chart : String) (known : Path → Bool) (source : Path)
    (trigger : String) : List Check :=
  t.target.toList.flatMap fun raw =>
    [⟨raw != "#" ++ chart, .rootTarget source trigger⟩,
      ⟨(targetPath chart source trigger raw).toOption.any known, .unknownTarget source trigger raw⟩]

def guardChecks (t : TransitionSpec C E) (chart : String) (known : Path → Bool) (source : Path)
    (trigger : String) : List Check :=
  t.inState.toList.map fun raw =>
    ⟨known (guardPath chart raw), .unknownGuardState source trigger raw⟩

/-- Of the checks of a transition that fail only the first is reported. -/
def fault? (t : TransitionSpec C E) (chart : String) (known : Path → Bool) (source : Path)
    (trigger : String) : Option Problem :=
  (Check.failed (t.targetChecks chart known source trigger ++
    t.guardChecks chart known source trigger)).head?

theorem problem?_resolveGuard (t : TransitionSpec C E) (chart : String)
    (index : Path → Option NodeId) (source : Path) (trigger : String)
    (f : Option (Guard C E) → Candidate C E) :
    problem? (t.resolveGuard chart index source trigger >>= fun guard => pure (f guard)) =
      (Check.failed (t.guardChecks chart (fun p => (index p).isSome) source trigger)).head? := by
  unfold resolveGuard guardChecks
  cases t.inState with
  | none => rfl
  | some raw =>
    cases hindex : index (guardPath chart raw) with
    | none => simp [Check.failed, hindex, problem?, bind, Except.bind]
    | some id =>
      cases t.guard <;> simp [Check.failed, hindex, problem?, bind, Except.bind, pure, Except.pure]

theorem target_cases (t : TransitionSpec C E) (chart : String) {index : Path → Option NodeId}
    {source : Path} (trigger : String) (hsource : (index source).isSome = true) :
    (∃ path id, t.resolveTarget chart source trigger = .ok path ∧
        t.resolveId index source trigger path = .ok id ∧
        Check.failed (t.targetChecks chart (fun p => (index p).isSome) source trigger) = []) ∨
      ∃ problem,
        (Check.failed (t.targetChecks chart (fun p => (index p).isSome) source trigger)).head? =
          some problem ∧
        (t.resolveTarget chart source trigger = .error problem ∨
          ∃ path, t.resolveTarget chart source trigger = .ok path ∧
            t.resolveId index source trigger path = .error problem) := by
  cases ht : t.target with
  | none =>
    obtain ⟨id, hid⟩ := Option.isSome_iff_exists.mp hsource
    left
    exact ⟨source, id, by simp [resolveTarget, ht], by simp [resolveId, hid],
      by simp [targetChecks, ht]⟩
  | some raw =>
    have hresolve : t.resolveTarget chart source trigger =
        targetPath chart source trigger raw := by simp [resolveTarget, ht]
    by_cases hroot : raw = "#" ++ chart
    · right
      subst hroot
      refine ⟨.rootTarget source trigger, ?_, .inl (hresolve.trans targetPath_root)⟩
      simp [targetChecks, ht, Check.failed_cons]
    · cases hpath : targetPath chart source trigger raw with
      | error problem =>
        right
        obtain rfl := targetPath_error hroot hpath
        refine ⟨_, ?_, .inl (hresolve.trans hpath)⟩
        simp [targetChecks, ht, Check.failed_cons, hroot, hpath, Except.toOption]
      | ok path =>
        cases hid : index path with
        | none =>
          right
          refine ⟨.unknownTarget source trigger raw, ?_, .inr ⟨path, hresolve.trans hpath, ?_⟩⟩
          · simp [targetChecks, ht, Check.failed_cons, hroot, hpath, hid, Except.toOption]
          · simp [resolveId, ht, hid]
        | some id =>
          left
          refine ⟨path, id, hresolve.trans hpath, by simp [resolveId, hid], ?_⟩
          simp [targetChecks, ht, Check.failed_cons, hroot, hpath, hid, Except.toOption]

/-- The problem that keeps a transition from being resolved is the first of its checks that
fails. -/
theorem problem?_resolve (t : TransitionSpec C E) (chart : String) {index : Path → Option NodeId}
    {source : Path} (trigger : String) (hsource : (index source).isSome = true) :
    problem? (t.resolve chart index source trigger) =
      t.fault? chart (fun p => (index p).isSome) source trigger := by
  rw [resolve_eq, fault?, Check.failed_append, List.head?_append]
  rcases t.target_cases chart trigger hsource with
    ⟨path, id, hpath, hid, hfailed⟩ | ⟨problem, hfailed, hpath | ⟨path, hpath, hid⟩⟩
  · rw [hfailed, hpath, ← problem?_resolveGuard]
    change problem? (t.resolveId index source trigger path >>= _) = _
    rw [hid]
    rfl
  · rw [hfailed, hpath]
    rfl
  · rw [hfailed, hpath]
    change problem? (t.resolveId index source trigger path >>= _) = _
    rw [hid]
    rfl

end TransitionSpec

end Statechart
