import Mathlib.Data.List.Induction
import Mathlib.Data.List.Sort
import Mathlib.Tactic.Tauto
import Statechart.Configuration

/-! What the value of a configuration still tells of its leaves. A value is known by its texts and
the keys above them, and of the leaves just those have their text in it that no later one is written
over. -/
namespace Statechart
namespace Json

/-- The last key stands as text below the keys before it. -/
def Shows : List String → Json → Prop
  | [], _ => False
  | [key], j => j = .text key
  | key :: next :: rest, j => ∃ v, j.field? key = some v ∧ Shows (next :: rest) v

/-- What is written for the first keys does not outlast what is written for the second: of the keys
above the two texts, one list begins with the other. -/
def Meets (ks ls : List String) : Prop :=
  ls ≠ [] ∧ (ks.dropLast <+: ls.dropLast ∨ ls.dropLast <+: ks.dropLast)

theorem shows_cons {key : String} {ks : List String} {j : Json} (h : ks ≠ []) :
    Shows (key :: ks) j ↔ ∃ v, j.field? key = some v ∧ Shows ks v := by
  cases ks with
  | nil => exact absurd rfl h
  | cons next rest => rfl

theorem Shows.ne_nil {ks : List String} {j : Json} (h : Shows ks j) : ks ≠ [] := by
  rintro rfl
  exact h

theorem not_shows_empty (ks : List String) : ¬Shows ks (.obj []) := by
  match ks with
  | [] => exact id
  | [_] => exact fun h => nomatch h
  | _ :: _ :: _ => exact fun ⟨_, hv, _⟩ => nomatch hv

theorem meets_cons {k l : String} {ks ls : List String} (hk : ks ≠ []) (hl : ls ≠ []) :
    Meets (k :: ks) (l :: ls) ↔ k = l ∧ Meets ks ls := by
  rw [Meets, Meets, List.dropLast_cons_of_ne_nil hk, List.dropLast_cons_of_ne_nil hl,
    List.cons_prefix_cons, List.cons_prefix_cons]
  simp only [ne_eq, reduceCtorEq, not_false_eq_true, true_and, hl, @eq_comm _ l k]
  tauto

theorem put_cons {key : String} {ks : List String} (h : ks ≠ []) (j : Json) :
    put (key :: ks) j =
      .obj (setField key (put ks ((j.field? key).getD (.obj []))) j.fields) := by
  rw [put]
  exact h

theorem mem_setField {key : String} {value : Json} {fields : List (String × Json)}
    {f : String × Json} (h : f ∈ setField key value fields) : f = (key, value) ∨ f ∈ fields := by
  induction fields with
  | nil => simpa [setField] using h
  | cons g rest ih =>
    simp only [setField] at h
    split at h
    · simpa using h
    · split at h
      · exact (List.mem_cons.mp h).imp_right (List.mem_cons_of_mem _)
      · rcases List.mem_cons.mp h with rfl | h
        · exact .inr List.mem_cons_self
        · exact (ih h).imp_right (List.mem_cons_of_mem _)

theorem ascending_setField (key : String) (value : Json) {fields : List (String × Json)}
    (h : fields.Pairwise (·.1 < ·.1)) : (setField key value fields).Pairwise (·.1 < ·.1) := by
  induction fields with
  | nil => simp [setField]
  | cons g rest ih =>
    obtain ⟨hg, hrest⟩ := List.pairwise_cons.mp h
    simp only [setField]
    split
    · rename_i hlt
      refine List.pairwise_cons.mpr ⟨fun f hf => ?_, h⟩
      rcases List.mem_cons.mp hf with rfl | hf
      · exact hlt
      · exact String.lt_trans hlt (hg f hf)
    · split
      · rename_i heq
        exact List.pairwise_cons.mpr ⟨fun f hf => heq ▸ hg f hf, hrest⟩
      · rename_i hnlt hne
        refine List.pairwise_cons.mpr ⟨fun f hf => ?_, ih hrest⟩
        rcases mem_setField hf with rfl | hf
        · exact Std.lt_of_le_of_ne (String.not_lt.mp hnlt) (Ne.symm hne)
        · exact hg f hf

theorem find?_setField (key other : String) (value : Json) (fields : List (String × Json)) :
    ((setField key value fields).find? (·.1 == other)).map (·.2) =
      if key = other then some value else (fields.find? (·.1 == other)).map (·.2) := by
  induction fields with
  | nil => by_cases h : key = other <;> simp [setField, h]
  | cons g rest ih =>
    simp only [setField]
    split
    · by_cases h : key = other <;> simp [List.find?_cons, h]
    · split
      · rename_i heq
        by_cases h : key = other <;> simp [← heq, h]
      · rename_i hne
        by_cases hg : g.1 = other
        · simp [hg, hg ▸ hne]
        · simp [hg, ih]

theorem field?_put {key other : String} {ks : List String} (h : ks ≠ []) (j : Json) :
    (put (key :: ks) j).field? other =
      if key = other then some (put ks ((j.field? key).getD (.obj []))) else j.field? other := by
  rw [put_cons h, field?, fields, find?_setField]
  rfl

/-- After writing, the new keys are shown, and what was shown before that they do not meet. -/
theorem shows_put {ks ls : List String} {j : Json} :
    Shows ks (put ls j) ↔ (ks = ls ∧ ls ≠ []) ∨ (Shows ks j ∧ ¬Meets ks ls) := by
  induction ls generalizing ks j with
  | nil =>
    simp [put, Meets]
  | cons l rest ih =>
    by_cases hrest : rest = []
    · subst hrest
      have hmeets : Meets ks [l] := ⟨List.cons_ne_nil _ _, .inr (by simp)⟩
      match ks with
      | [] => simp [Shows]
      | [k] => simp [put, Shows, hmeets, eq_comm]
      | k :: next :: tail => simp [put, Shows, hmeets, field?, fields]
    · match ks with
      | [] => simp [Shows]
      | [k] =>
        have hmeets : Meets [k] (l :: rest) := ⟨List.cons_ne_nil _ _, .inl (by simp)⟩
        simp [put_cons hrest, Shows, hmeets, Ne.symm hrest]
      | k :: next :: tail =>
        have htail : next :: tail ≠ [] := List.cons_ne_nil _ _
        rw [shows_cons htail, shows_cons htail, meets_cons htail hrest]
        simp only [field?_put hrest]
        by_cases hk : l = k
        · subst hk
          cases hv : j.field? l with
          | none => simp [ih, hrest, not_shows_empty]
          | some v => simp [ih, hrest]
        · simp [hk, Ne.symm hk]

/-- Texts, and objects with fields in order, each of which is of this form again, and at least one. -/
inductive Tidy : Json → Prop where
  | text (s : String) : Tidy (.text s)
  | obj {fields : List (String × Json)} (ascending : fields.Pairwise (·.1 < ·.1))
      (ne : fields ≠ []) (below : ∀ f ∈ fields, Tidy f.2) : Tidy (.obj fields)

theorem setField_ne_nil (key : String) (value : Json) (fields : List (String × Json)) :
    setField key value fields ≠ [] := by
  cases fields with
  | nil => simp [setField]
  | cons g rest =>
    simp only [setField]
    split
    · simp
    · split <;> simp

theorem tidy_fields {j : Json} (h : j = .obj [] ∨ Tidy j) :
    j.fields.Pairwise (·.1 < ·.1) ∧ ∀ f ∈ j.fields, Tidy f.2 := by
  rcases h with rfl | ⟨s⟩ | ⟨ascending, -, below⟩
  · simp [fields]
  · simp [fields]
  · exact ⟨ascending, below⟩

theorem tidy_put {ks : List String} (hk : ks ≠ []) {j : Json} (h : j = .obj [] ∨ Tidy j) :
    Tidy (put ks j) := by
  induction ks generalizing j with
  | nil => exact absurd rfl hk
  | cons key rest ih =>
    by_cases hrest : rest = []
    · subst hrest
      exact .text key
    · obtain ⟨ascending, below⟩ := tidy_fields h
      have hfield : (j.field? key).getD (.obj []) = .obj [] ∨
          Tidy ((j.field? key).getD (.obj [])) := by
        cases hv : j.field? key with
        | none => exact .inl rfl
        | some v =>
          obtain ⟨f, hf, rfl⟩ := Option.map_eq_some_iff.mp hv
          exact .inr (below f (List.mem_of_find?_eq_some hf))
      rw [put_cons hrest]
      refine .obj (ascending_setField _ _ ascending) (setField_ne_nil _ _ _) fun f hf => ?_
      rcases mem_setField hf with rfl | hf
      · exact ih hrest hfield
      · exact below f hf

theorem mem_fields_iff {fields : List (String × Json)} (h : fields.Pairwise (·.1 < ·.1))
    {key : String} {v : Json} : (key, v) ∈ fields ↔ (Json.obj fields).field? key = some v := by
  have hkeys : (fields.map (·.1)).Nodup :=
    List.pairwise_map.mpr
      (h.imp fun {f g} (hlt : f.1 < g.1) (heq : f.1 = g.1) => String.lt_irrefl g.1 (heq ▸ hlt))
  constructor
  · intro hmem
    have hsome : (fields.find? (·.1 == key)).isSome = true :=
      List.find?_isSome.mpr ⟨_, hmem, by simp⟩
    obtain ⟨f, hf⟩ := Option.isSome_iff_exists.mp hsome
    have hkey : f.1 = key := by simpa using List.find?_some hf
    have hsame := List.inj_on_of_nodup_map hkeys (List.mem_of_find?_eq_some hf) hmem hkey
    rw [field?, Json.fields, hf, hsame]
    rfl
  · intro hfield
    obtain ⟨f, hf, rfl⟩ := Option.map_eq_some_iff.mp hfield
    have hkey : f.1 = key := by simpa using List.find?_some hf
    exact hkey ▸ List.mem_of_find?_eq_some hf

theorem Tidy.exists_shows {j : Json} (h : Tidy j) : ∃ ks, Shows ks j := by
  induction h with
  | text s => exact ⟨[s], rfl⟩
  | @obj fields ascending ne below ih =>
    obtain ⟨f, hf⟩ := List.exists_mem_of_ne_nil fields ne
    obtain ⟨ks, hks⟩ := ih f hf
    exact ⟨f.1 :: ks, (shows_cons hks.ne_nil).mpr ⟨f.2, (mem_fields_iff ascending).mp hf, hks⟩⟩

theorem Tidy.ext {j j' : Json} (h : Tidy j) (h' : Tidy j')
    (shows : ∀ ks, Shows ks j ↔ Shows ks j') : j = j' := by
  induction h generalizing j' with
  | text s => exact ((shows [s]).mp rfl).symm
  | @obj fields ascending ne below ih =>
    cases h' with
    | text s => exact (shows [s]).mpr rfl
    | @obj fields' ascending' ne' below' =>
      -- fields of one name have one value, as they show the same
      have same : ∀ {key v v'}, (key, v) ∈ fields → (key, v') ∈ fields' → v = v' := by
        intro key v v' hv hv'
        refine ih _ hv (below' _ hv') fun ks => ?_
        by_cases hks : ks = []
        · subst hks
          exact Iff.rfl
        · have hboth := shows (key :: ks)
          rw [shows_cons hks, shows_cons hks, (mem_fields_iff ascending).mp hv,
            (mem_fields_iff ascending').mp hv'] at hboth
          simpa using hboth
      have hasymm : ∀ f g : String × Json, f.1 < g.1 → ¬g.1 < f.1 :=
        fun f g hfg hgf => String.lt_irrefl _ (String.lt_trans hfg hgf)
      have : Std.Irrefl fun f g : String × Json => f.1 < g.1 := ⟨fun f => String.lt_irrefl f.1⟩
      have : Std.Antisymm fun f g : String × Json => f.1 < g.1 :=
        ⟨fun f g hfg hgf => absurd hgf (hasymm f g hfg)⟩
      refine congrArg Json.obj (ascending.eq_of_mem_iff ascending' fun ⟨key, v⟩ => ⟨?_, ?_⟩)
      · intro hv
        obtain ⟨ks, hks⟩ := (below _ hv).exists_shows
        have hshow : Shows (key :: ks) (.obj fields) :=
          (shows_cons hks.ne_nil).mpr ⟨v, (mem_fields_iff ascending).mp hv, hks⟩
        obtain ⟨v', hv', -⟩ := (shows_cons hks.ne_nil).mp ((shows _).mp hshow)
        have hmem := (mem_fields_iff ascending').mpr hv'
        exact same hv hmem ▸ hmem
      · intro hv'
        obtain ⟨ks, hks⟩ := (below' _ hv').exists_shows
        have hshow : Shows (key :: ks) (.obj fields') :=
          (shows_cons hks.ne_nil).mpr ⟨v, (mem_fields_iff ascending').mp hv', hks⟩
        obtain ⟨v', hv, -⟩ := (shows_cons hks.ne_nil).mp ((shows _).mpr hshow)
        have hmem := (mem_fields_iff ascending).mpr hv
        exact same hmem hv' ▸ hmem

theorem eq_of_shows {j j' : Json} (h : j = .obj [] ∨ Tidy j) (h' : j' = .obj [] ∨ Tidy j')
    (shows : ∀ ks, Shows ks j ↔ Shows ks j') : j = j' := by
  rcases h with rfl | h
  · rcases h' with rfl | h'
    · rfl
    · obtain ⟨ks, hks⟩ := h'.exists_shows
      exact absurd ((shows ks).mpr hks) (not_shows_empty ks)
  · rcases h' with rfl | h'
    · obtain ⟨ks, hks⟩ := h.exists_shows
      exact absurd ((shows ks).mp hks) (not_shows_empty ks)
    · exact h.ext h' shows

end Json

namespace Configuration

theorem eq_of_same_leaves {c c' : Configuration} (h : ∀ p, p ∈ c.leaves ↔ p ∈ c'.leaves) :
    c = c' := by
  have : Std.Irrefl fun p q : Path => p < q := ⟨fun p => String.lt_irrefl p.text⟩
  have : Std.Antisymm fun p q : Path => p < q :=
    ⟨fun p q hpq hqp => absurd (String.lt_trans hpq hqp) (String.lt_irrefl p.text)⟩
  cases c with
  | mk leaves ascending =>
    cases c' with
    | mk leaves' ascending' =>
      obtain rfl : leaves = leaves' := ascending.eq_of_mem_iff ascending' h
      rfl

/-- A leaf that no later one is written over. -/
def Keeps (c : Configuration) (p : Path) : Prop :=
  p ∈ c.leaves ∧ p.segments ≠ [] ∧ ∀ q ∈ c.leaves, p < q → ¬Json.Meets p.segments q.segments

theorem tidy_value (c : Configuration) : c.value = .obj [] ∨ c.value.Tidy := by
  have general : ∀ (ps : List Path) (j : Json), j = .obj [] ∨ j.Tidy →
      ps.foldl (fun j p => j.put p.segments) j = .obj [] ∨
        (ps.foldl (fun j p => j.put p.segments) j).Tidy := by
    intro ps
    induction ps with
    | nil => exact fun _ h => h
    | cons p rest ih =>
      intro j h
      refine ih _ ?_
      by_cases hp : p.segments = []
      · simpa [hp, Json.put] using h
      · exact .inr (Json.tidy_put hp h)
  exact general c.leaves (.obj []) (.inl rfl)

theorem shows_value (c : Configuration) (ks : List String) :
    Json.Shows ks c.value ↔ ∃ p, c.Keeps p ∧ p.segments = ks := by
  have general : ∀ ps : List Path, ps.Pairwise (· < ·) →
      (Json.Shows ks (ps.foldl (fun j p => j.put p.segments) (.obj [])) ↔
        ∃ p, (p ∈ ps ∧ p.segments ≠ [] ∧ ∀ q ∈ ps, p < q → ¬Json.Meets p.segments q.segments) ∧
          p.segments = ks) := by
    intro ps
    -- what is written last is compared with all that was written before
    induction ps using List.reverseRecOn with
    | nil => simp [Json.not_shows_empty]
    | append_singleton ps r ih =>
      intro h
      obtain ⟨hps, -, hr⟩ := List.pairwise_append.mp h
      have hlast : ∀ p ∈ ps, p < r := fun p hp => hr p hp r List.mem_cons_self
      rw [List.foldl_append, List.foldl_cons, List.foldl_nil, Json.shows_put, ih hps]
      constructor
      · rintro (⟨rfl, hne⟩ | ⟨⟨p, ⟨hp, hne, hkept⟩, rfl⟩, hmeets⟩)
        · refine ⟨r, ⟨by simp, hne, fun q hq hlt => ?_⟩, rfl⟩
          rcases List.mem_append.mp hq with hq | hq
          · exact absurd (String.lt_trans hlt (hlast q hq)) (String.lt_irrefl _)
          · obtain rfl := List.mem_singleton.mp hq
            exact absurd hlt (String.lt_irrefl _)
        · refine ⟨p, ⟨List.mem_append_left _ hp, hne, fun q hq hlt => ?_⟩, rfl⟩
          rcases List.mem_append.mp hq with hq | hq
          · exact hkept q hq hlt
          · exact List.mem_singleton.mp hq ▸ hmeets
      · rintro ⟨p, ⟨hp, hne, hkept⟩, rfl⟩
        rcases List.mem_append.mp hp with hp | hp
        · right
          refine ⟨⟨p, ⟨hp, hne, fun q hq => hkept q (List.mem_append_left _ hq)⟩, rfl⟩, ?_⟩
          exact hkept r (by simp) (hlast p hp)
        · obtain rfl := List.mem_singleton.mp hp
          exact .inl ⟨rfl, hne⟩
  exact general c.leaves c.ascending

/-- Two configurations have one value just when the leaves they keep have the same keys. -/
theorem value_eq_iff {c c' : Configuration} : c.value = c'.value ↔
    ∀ ks, (∃ p, c.Keeps p ∧ p.segments = ks) ↔ ∃ p, c'.Keeps p ∧ p.segments = ks := by
  simp only [← shows_value]
  constructor
  · intro h ks
    rw [h]
  · exact Json.eq_of_shows c.tidy_value c'.tidy_value

end Configuration
end Statechart
