import Statechart.Proofs.Layout
import Statechart.Spec.Build

/-! Sound declarations: each state is as its shape asks, and no two states have one path. These are
the declarations in whose trees no problem is found. -/
namespace Statechart
namespace StateSpec

variable {C E : Type}

/-- What is asked of a state and of the keys right below it. -/
structure Sound (s : StateSpec C E) : Prop where
  atomic : s.shape = .atomic → s.states = []
  compound : s.shape = .compound → ∃ t ∈ s.states, s.initial = some t.key
  parallel : s.shape = .parallel → s.states ≠ []
  initial : s.shape ≠ .compound → s.initial = none
  delay : s.after.length ≤ 1
  keys : ∀ t ∈ s.states, isValidKey t.key = true

theorem initialProblems_eq_nil_iff {s : StateSpec C E} {label : String} :
    s.initialProblems label = [] ↔ (s.shape ≠ .compound → s.initial = none) := by
  unfold initialProblems
  cases hs : s.shape <;> cases hi : s.initial <;> simp

theorem childProblems_eq_nil_iff {s : StateSpec C E} {label : String} :
    s.childProblems label = [] ↔
      (s.shape = .atomic → s.states = []) ∧
      (s.shape = .compound → ∃ t ∈ s.states, s.initial = some t.key) ∧
      (s.shape = .parallel → s.states ≠ []) := by
  unfold childProblems
  cases hs : s.shape with
  | atomic => simp
  | parallel => simp
  | compound =>
    cases hi : s.initial with
    | none => cases s.states <;> simp
    | some initial =>
      have hany : s.states.any (·.key == initial) = true ↔
          ∃ t ∈ s.states, some initial = some t.key := by
        simp [@eq_comm _ initial]
      have hne : s.states.any (·.key == initial) = true → s.states ≠ [] := by
        rintro h he
        simp [he] at h
      rw [← hany]
      by_cases h : s.states.any (·.key == initial) = true
      · simp [h, hne h]
      · simp [h]

theorem sound_iff {s : StateSpec C E} (label : String) :
    s.Sound ↔ s.after.length ≤ 1 ∧ s.initialProblems label = [] ∧ s.childProblems label = [] ∧
      ∀ t ∈ s.states, isValidKey t.key = true := by
  rw [initialProblems_eq_nil_iff, childProblems_eq_nil_iff]
  constructor
  · intro h
    exact ⟨h.delay, h.initial, ⟨h.atomic, h.compound, h.parallel⟩, h.keys⟩
  · rintro ⟨hd, hi, ⟨ha, hc, hp⟩, hk⟩
    exact ⟨ha, hc, hp, hi, hd, hk⟩

/-- The paths of a state and of all states below it, in document order. -/
def paths (s : StateSpec C E) (path : Path) : List Path := (s.layout [] path 0).map (·.path)

def pathsAll (ss : List (StateSpec C E)) (path : Path) : List Path :=
  ss.flatMap fun s => s.paths (path.child s.key)

theorem map_path_layoutAll (ancestors : List NodeId) (path : Path) (next : NodeId)
    (ss : List (StateSpec C E)) :
    (layoutAll ancestors path next ss).map (·.path) = pathsAll ss path := by
  induction ss generalizing next with
  | nil => simp [layoutAll, pathsAll]
  | cons s rest ih =>
    rw [layoutAll, List.map_append, ih, map_path_layout s ancestors [] _ next 0]
    rfl

theorem paths_eq (s : StateSpec C E) (path : Path) :
    s.paths path = path :: pathsAll s.states path := by
  rw [paths, layout_eq, List.map_cons, map_path_layoutAll]
  rfl

inductive SoundTree : StateSpec C E → Prop where
  | mk {s : StateSpec C E} (sound : s.Sound) (below : ∀ t ∈ s.states, SoundTree t) : SoundTree s

theorem soundTree_iff {s : StateSpec C E} :
    s.SoundTree ↔ s.Sound ∧ ∀ t ∈ s.states, t.SoundTree :=
  ⟨fun h => by cases h with | mk sound below => exact ⟨sound, below⟩, fun h => .mk h.1 h.2⟩

theorem SoundTree.sound_of_mem {s : StateSpec C E} (h : s.SoundTree) :
    ∀ {ancestors : List NodeId} {path : Path} {id : NodeId} {e : Entry C E},
      e ∈ s.layout ancestors path id → e.spec.Sound := by
  induction h with
  | mk sound below ih =>
    intro ancestors path id e he
    rcases mem_layout.mp he with rfl | ⟨c, hc, he⟩
    · exact sound
    · exact ih c.2 (List.of_mem_zip hc).2 he

theorem problems_eq (chart : String) (seen : List Path) (path : Path) (s : StateSpec C E) :
    s.problems chart seen path =
      (if seen.contains path then [.duplicateState (label chart path)] else []) ++
        (if s.after.length ≤ 1 then [] else [.duplicateDelay (label chart path)]) ++
        problemsAll chart (path :: seen) path s.states ++
        s.initialProblems (label chart path) ++ s.childProblems (label chart path) := by
  cases s
  rw [problems]

/-- No problem is found in the sound trees without repeated paths, and in no others. -/
theorem problems_eq_nil_iff (chart : String) (s : StateSpec C E) :
    ∀ (seen : List Path) (path : Path), s.problems chart seen path = [] ↔
      s.SoundTree ∧ (s.paths path).Nodup ∧ ∀ p ∈ s.paths path, p ∉ seen := by
  induction s using tree_induction with
  | step s ih =>
    have all : ∀ ss : List (StateSpec C E), (∀ t ∈ ss, t ∈ s.states) →
        ∀ (seen : List Path) (path : Path), problemsAll chart seen path ss = [] ↔
          (∀ t ∈ ss, isValidKey t.key = true ∧ t.SoundTree) ∧ (pathsAll ss path).Nodup ∧
            ∀ p ∈ pathsAll ss path, p ∉ seen := by
      intro ss hss
      induction ss with
      | nil => intros; simp [problemsAll, pathsAll]
      | cons t rest iht =>
        intro seen path
        have ht := ih t (hss t List.mem_cons_self) seen (path.child t.key)
        have hr := iht (fun t ht => hss t (List.mem_cons_of_mem _ ht))
          (t.paths (path.child t.key) ++ seen) path
        have hsplit : pathsAll (t :: rest) path =
            t.paths (path.child t.key) ++ pathsAll rest path := rfl
        have hstep : problemsAll chart seen path (t :: rest) = [] ↔
            isValidKey t.key = true ∧ t.problems chart seen (path.child t.key) = [] ∧
              problemsAll chart (t.paths (path.child t.key) ++ seen) path rest = [] := by
          rw [problemsAll, List.append_eq_nil_iff, List.append_eq_nil_iff]
          simp [paths, and_assoc]
        rw [hstep, ht, hr, hsplit, List.nodup_append]
        simp only [List.mem_cons, List.mem_append]
        grind
    intro seen path
    have hchildren := all s.states (fun _ h => h) (path :: seen) path
    rw [problems_eq, soundTree_iff, sound_iff (label chart path), paths_eq]
    simp only [List.append_eq_nil_iff, hchildren, List.nodup_cons, List.mem_cons]
    grind

end StateSpec
end Statechart
