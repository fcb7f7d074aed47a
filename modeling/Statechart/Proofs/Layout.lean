import Statechart.Spec.Layout

/-! The layout of a declared tree, read back: under which numbers it lists the states, and how the
ancestors, the children and the path of one state fit those of another. -/
namespace Statechart

/-- The second entry is that of a state declared directly inside the state of the first. -/
structure Entry.Holds {C E : Type} (p e : Entry C E) : Prop where
  ancestors : e.ancestors = p.id :: p.ancestors
  path : e.path = p.path.child e.spec.key
  declared : (e.id, e.spec) ∈ p.children.zip p.spec.states

namespace StateSpec

variable {C E : Type}

theorem tree_induction {P : StateSpec C E → Prop}
    (step : ∀ s : StateSpec C E, (∀ t ∈ s.states, P t) → P s) (s : StateSpec C E) : P s := by
  cases s with
  | mk key shape initial entry exit on after states =>
    exact step ⟨key, shape, initial, entry, exit, on, after, states⟩ fun t _ =>
      tree_induction step t

/-- The entry of a state itself, with which its layout begins. -/
def entryAt (ancestors : List NodeId) (path : Path) (id : NodeId) (s : StateSpec C E) : Entry C E :=
  ⟨id, path, ancestors, childIds (id + 1) s.states, s⟩

theorem layout_eq (ancestors : List NodeId) (path : Path) (id : NodeId) (s : StateSpec C E) :
    s.layout ancestors path id =
      s.entryAt ancestors path id :: layoutAll (id :: ancestors) path (id + 1) s.states := by
  cases s
  rw [layout]
  rfl

theorem size_eq (s : StateSpec C E) : s.size = 1 + sizeAll s.states := by
  cases s
  rw [size]

theorem mem_layoutAll {ancestors : List NodeId} {path : Path} {next : NodeId}
    {ss : List (StateSpec C E)} {e : Entry C E} :
    e ∈ layoutAll ancestors path next ss ↔
      ∃ c ∈ (childIds next ss).zip ss, e ∈ c.2.layout ancestors (path.child c.2.key) c.1 := by
  induction ss generalizing next with
  | nil => simp [layoutAll, childIds]
  | cons s rest ih =>
    rw [layoutAll, childIds, List.mem_append, ih, List.zip_cons_cons]
    simp only [List.mem_cons, exists_eq_or_imp]

theorem mem_layout {ancestors : List NodeId} {path : Path} {id : NodeId} {s : StateSpec C E}
    {e : Entry C E} :
    e ∈ s.layout ancestors path id ↔
      e = s.entryAt ancestors path id ∨
        ∃ c ∈ (childIds (id + 1) s.states).zip s.states,
          e ∈ c.2.layout (id :: ancestors) (path.child c.2.key) c.1 := by
  rw [layout_eq, List.mem_cons, mem_layoutAll]

theorem entryAt_mem_layout (ancestors : List NodeId) (path : Path) (id : NodeId)
    (s : StateSpec C E) : s.entryAt ancestors path id ∈ s.layout ancestors path id :=
  mem_layout.mpr (.inl rfl)

mutual
theorem map_id_layout (ancestors : List NodeId) (path : Path) (id : NodeId) :
    ∀ s : StateSpec C E, (s.layout ancestors path id).map (·.id) = List.range' id s.size
  | ⟨key, shape, initial, entry, exit, on, after, states⟩ => by
    rw [layout, size, List.map_cons, map_id_layoutAll, Nat.add_comm 1, List.range'_succ]

theorem map_id_layoutAll (ancestors : List NodeId) (path : Path) (next : NodeId) :
    ∀ ss : List (StateSpec C E),
      (layoutAll ancestors path next ss).map (·.id) = List.range' next (sizeAll ss)
  | [] => by rw [layoutAll, sizeAll, List.map_nil, List.range'_zero]
  | s :: rest => by
    rw [layoutAll, sizeAll, List.map_append, map_id_layout, map_id_layoutAll,
      List.range'_append_1]
end

theorem le_of_mem_childIds {next c : Nat} {ss : List (StateSpec C E)}
    (h : c ∈ childIds next ss) : next ≤ c := by
  induction ss generalizing next with
  | nil => simp [childIds] at h
  | cons s rest ih =>
    rcases List.mem_cons.mp h with rfl | h
    · exact Nat.le_refl _
    · have := ih h
      omega

theorem pairwise_childIds (next : Nat) (ss : List (StateSpec C E)) :
    (childIds next ss).Pairwise (· < ·) := by
  induction ss generalizing next with
  | nil => simp [childIds]
  | cons s rest ih =>
    refine List.pairwise_cons.mpr ⟨fun c hc => ?_, ih _⟩
    have hs : 0 < s.size := by
      rw [size_eq]
      omega
    exact Nat.lt_of_lt_of_le (Nat.lt_add_of_pos_right hs) (le_of_mem_childIds hc)

@[simp] theorem length_childIds (next : NodeId) (ss : List (StateSpec C E)) :
    (childIds next ss).length = ss.length := by
  induction ss generalizing next with
  | nil => rfl
  | cons s rest ih => simp [childIds, ih]

theorem children_of_mem_layout (s : StateSpec C E) :
    ∀ {ancestors : List NodeId} {path : Path} {id : NodeId} {e : Entry C E},
      e ∈ s.layout ancestors path id → e.children = childIds (e.id + 1) e.spec.states := by
  induction s using tree_induction with
  | step s ih =>
    intro ancestors path id e he
    rcases mem_layout.mp he with rfl | ⟨c, hc, he⟩
    · rfl
    · exact ih c.2 (List.of_mem_zip hc).2 he

/-- Every entry but the first is held by another one. -/
theorem held_of_mem_layout (s : StateSpec C E) :
    ∀ {ancestors : List NodeId} {path : Path} {id : NodeId} {e : Entry C E},
      e ∈ s.layout ancestors path id →
        e = s.entryAt ancestors path id ∨ ∃ p ∈ s.layout ancestors path id, p.Holds e := by
  induction s using tree_induction with
  | step s ih =>
    intro ancestors path id e he
    rcases mem_layout.mp he with rfl | ⟨c, hc, he⟩
    · exact .inl rfl
    · right
      rcases ih c.2 (List.of_mem_zip hc).2 he with rfl | ⟨p, hp, holds⟩
      · exact ⟨s.entryAt ancestors path id, entryAt_mem_layout .., rfl, rfl, hc⟩
      · exact ⟨p, mem_layout.mpr (.inr ⟨c, hc, hp⟩), holds⟩

theorem holds_of_mem_layout (s : StateSpec C E) :
    ∀ {ancestors : List NodeId} {path : Path} {id : NodeId} {p : Entry C E}
      {c : NodeId × StateSpec C E}, p ∈ s.layout ancestors path id →
        c ∈ p.children.zip p.spec.states →
          ∃ e ∈ s.layout ancestors path id, p.Holds e ∧ e.id = c.1 ∧ e.spec = c.2 := by
  induction s using tree_induction with
  | step s ih =>
    intro ancestors path id p c hp hc
    rcases mem_layout.mp hp with rfl | ⟨d, hd, hp⟩
    · refine ⟨c.2.entryAt (id :: ancestors) (path.child c.2.key) c.1, ?_, ⟨rfl, rfl, hc⟩, rfl, rfl⟩
      exact mem_layout.mpr (.inr ⟨c, hc, entryAt_mem_layout ..⟩)
    · obtain ⟨e, he, holds⟩ := ih d.2 (List.of_mem_zip hd).2 hp hc
      exact ⟨e, mem_layout.mpr (.inr ⟨d, hd, he⟩), holds⟩

theorem map_path_layout (s : StateSpec C E) :
    ∀ (ancestors ancestors' : List NodeId) (path : Path) (id id' : NodeId),
      (s.layout ancestors path id).map (·.path) = (s.layout ancestors' path id').map (·.path) := by
  induction s using tree_induction with
  | step s ih =>
    have all : ∀ (ss : List (StateSpec C E)), (∀ t ∈ ss, t ∈ s.states) →
        ∀ (as as' : List NodeId) (path : Path) (next next' : NodeId),
          (layoutAll as path next ss).map (·.path) =
            (layoutAll as' path next' ss).map (·.path) := by
      intro ss hss
      induction ss with
      | nil => intros; simp [layoutAll]
      | cons t rest iht =>
        intro as as' path next next'
        simp only [layoutAll, List.map_append]
        rw [ih t (hss t List.mem_cons_self) as as' _ next next',
          iht (fun t ht => hss t (List.mem_cons_of_mem _ ht)) as as' path _ (next' + t.size)]
    intro as as' path id id'
    rw [layout_eq, layout_eq, List.map_cons, List.map_cons,
      all s.states (fun _ h => h) _ (id' :: as') path _ (id' + 1)]
    rfl

end StateSpec
end Statechart
