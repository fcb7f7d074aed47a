import Statechart.Timers

/-! Which timers are armed after the registry follows what a step fired. Every arming has a
generation that no timer had before it. -/
namespace Statechart.Timers

/-- At most one timer is armed for a state, and none is of a generation yet to come. -/
structure Sound (t : Timers) : Prop where
  single : ∀ a ∈ t.armed, ∀ b ∈ t.armed, a.state = b.state → a = b
  past : ∀ a ∈ t.armed, a.generation ≤ t.generation

theorem sound_empty : ({} : Timers).Sound := ⟨by simp, by simp⟩

theorem Sound.mono {t r : Timers} (sound : t.Sound) (h : ∀ a ∈ r.armed, a ∈ t.armed)
    (hg : t.generation ≤ r.generation) : r.Sound where
  single a ha b hb := sound.single a (h a ha) b (h b hb)
  past a ha := Nat.le_trans (sound.past a (h a ha)) hg

theorem isArmed_iff {t : Timers} {state : Path} :
    t.isArmed state = true ↔ ∃ a ∈ t.armed, a.state = state := by
  simp [isArmed, armedFor?]

theorem armedFor?_eq_some_iff {t : Timers} (sound : t.Sound) {state : Path} {a : Alarm} :
    t.armedFor? state = some a ↔ a ∈ t.armed ∧ a.state = state := by
  constructor
  · intro h
    exact ⟨List.mem_of_find?_eq_some h, by simpa using List.find?_some h⟩
  · rintro ⟨ha, hs⟩
    cases hf : t.armedFor? state with
    | none =>
      have hnone := List.find?_eq_none.mp hf a ha
      exact absurd hs (by simpa using hnone)
    | some b =>
      have hb := List.find?_some hf
      rw [sound.single a ha b (List.mem_of_find?_eq_some hf) (hs.trans (beq_iff_eq.mp hb).symm)]

@[simp] theorem generation_cancel (t : Timers) (state : Path) :
    (t.cancel state).1.generation = t.generation := by
  unfold cancel
  split <;> rfl

theorem mem_cancel {t : Timers} (sound : t.Sound) (state : Path) {a : Alarm} :
    a ∈ (t.cancel state).1.armed ↔ a ∈ t.armed ∧ a.state ≠ state := by
  unfold cancel
  split
  · rename_i hnone
    have hne := List.find?_eq_none.mp hnone
    exact ⟨fun ha => ⟨ha, by simpa using hne a ha⟩, And.left⟩
  · rename_i b hb
    obtain ⟨hmem, rfl⟩ := (armedFor?_eq_some_iff sound).mp hb
    simp only [List.mem_filter, decide_eq_true_eq]
    exact and_congr_right fun ha =>
      ⟨fun hne hs => hne (sound.single a ha b hmem hs), fun hs he => hs (he ▸ rfl)⟩

theorem sound_cancel {t : Timers} (sound : t.Sound) (state : Path) : (t.cancel state).1.Sound :=
  sound.mono (fun _ ha => ((mem_cancel sound state).mp ha).1)
    (Nat.le_of_eq (generation_cancel t state).symm)

theorem generation_arm (t : Timers) (wake : Duration → Nat) (state : Path) (delay : Duration) :
    (t.arm wake state delay).1.generation = t.generation + 1 := by
  simp [arm]

theorem mem_arm {t : Timers} (sound : t.Sound) (wake : Duration → Nat) (state : Path)
    (delay : Duration) {a : Alarm} : a ∈ (t.arm wake state delay).1.armed ↔
      (a ∈ t.armed ∧ a.state ≠ state) ∨ a = ⟨state, t.generation + 1⟩ := by
  simp [arm, mem_cancel sound state]

theorem sound_arm {t : Timers} (sound : t.Sound) (wake : Duration → Nat) (state : Path)
    (delay : Duration) : (t.arm wake state delay).1.Sound where
  single a ha b hb hs := by
    rcases (mem_arm sound wake state delay).mp ha with ⟨ha, hna⟩ | rfl
    · rcases (mem_arm sound wake state delay).mp hb with ⟨hb, -⟩ | rfl
      · exact sound.single a ha b hb hs
      · exact absurd hs hna
    · rcases (mem_arm sound wake state delay).mp hb with ⟨-, hnb⟩ | rfl
      · exact absurd hs.symm hnb
      · rfl
  past a ha := by
    rw [generation_arm]
    rcases (mem_arm sound wake state delay).mp ha with ⟨ha, -⟩ | rfl
    · exact Nat.le_succ_of_le (sound.past a ha)
    · exact Nat.le_refl _

theorem claim_eq_some_iff {t r : Timers} (sound : t.Sound) {a : Alarm} :
    t.claim a = some r ↔ a ∈ t.armed ∧ r = { t with armed := t.armed.filter (· ≠ a) } := by
  unfold claim
  split
  · rename_i h
    have ha := ((armedFor?_eq_some_iff sound).mp h).1
    simp [ha, eq_comm]
  · rename_i h
    have ha : a ∉ t.armed := fun ha => h ((armedFor?_eq_some_iff sound).mpr ⟨ha, rfl⟩)
    simp [ha]

theorem mem_claim {t r : Timers} (sound : t.Sound) {a b : Alarm} (h : t.claim a = some r) :
    b ∈ r.armed ↔ b ∈ t.armed ∧ b.state ≠ a.state := by
  obtain ⟨ha, rfl⟩ := (claim_eq_some_iff sound).mp h
  simp only [List.mem_filter, decide_eq_true_eq]
  exact and_congr_right fun hb =>
    ⟨fun hne hs => hne (sound.single b hb a ha hs), fun hs he => hs (he ▸ rfl)⟩

theorem foldl_cancelStep {t : Traced Timers} (sound : t.1.Sound) (fired : List Fired) :
    (fired.foldl cancelStep t).1.Sound ∧
      (fired.foldl cancelStep t).1.generation = t.1.generation ∧
      ∀ a, a ∈ (fired.foldl cancelStep t).1.armed ↔ a ∈ t.1.armed ∧ .cancel a.state ∉ fired := by
  induction fired generalizing t with
  | nil => simp [sound]
  | cons f rest ih =>
    cases f with
    | cancel state =>
      obtain ⟨hsound, hgen, hmem⟩ :=
        ih (t := cancelStep t (.cancel state)) (sound_cancel sound state)
      refine ⟨hsound, hgen.trans (generation_cancel t.1 state), fun a => (hmem a).trans ?_⟩
      simp only [cancelStep, mem_cancel sound state, List.mem_cons, Fired.cancel.injEq, not_or,
        and_assoc]
    | schedule state delay => simpa [cancelStep] using ih sound
    | run name => simpa [cancelStep] using ih sound
    | assign name => simpa [cancelStep] using ih sound

/-- What a registry has become when it has armed what a step scheduled: the timers of other states
are left alone, and each state that was scheduled has one of a new generation. -/
structure Arms (t r : Timers) (fired : List Fired) : Prop where
  sound : r.Sound
  generation : t.generation ≤ r.generation
  origin : ∀ a ∈ r.armed, (a ∈ t.armed ∧ ∀ d, .schedule a.state d ∉ fired) ∨
    (t.generation < a.generation ∧ ∃ d, .schedule a.state d ∈ fired)
  kept : ∀ a ∈ t.armed, (∀ d, .schedule a.state d ∉ fired) → a ∈ r.armed
  started : ∀ state d, .schedule state d ∈ fired → ∃ a ∈ r.armed, a.state = state

theorem Arms.cons {t r : Timers} {wake : Duration → Nat} {state : Path} {delay : Duration}
    {rest : List Fired} (sound : t.Sound) (h : Arms (t.arm wake state delay).1 r rest) :
    Arms t r (.schedule state delay :: rest) := by
  have hmem := fun a => mem_arm sound wake state delay (a := a)
  have hlt : t.generation < (t.arm wake state delay).1.generation := by
    rw [generation_arm]
    exact Nat.lt_succ_self _
  refine ⟨h.sound, Nat.le_trans (Nat.le_of_lt hlt) h.generation, fun a ha => ?_,
    fun a ha hd => ?_, fun s d hs => ?_⟩
  · rcases h.origin a ha with ⟨hold, hrest⟩ | ⟨hnew, d, hd⟩
    · rcases (hmem a).mp hold with ⟨hold, hne⟩ | rfl
      · exact .inl ⟨hold, fun d => by simp [hrest d, hne]⟩
      · exact .inr ⟨Nat.lt_succ_self _, delay, List.mem_cons_self⟩
    · exact .inr ⟨Nat.lt_trans hlt hnew, d, List.mem_cons_of_mem _ hd⟩
  · have hne : a.state ≠ state := fun hs => hd delay (hs ▸ List.mem_cons_self)
    have harmed : a ∈ (t.arm wake state delay).1.armed := (hmem a).mpr (.inl ⟨ha, hne⟩)
    exact h.kept a harmed fun d hmem => hd d (List.mem_cons_of_mem _ hmem)
  · by_cases hrest : ∃ d, .schedule s d ∈ rest
    · obtain ⟨d, hd⟩ := hrest
      exact h.started s d hd
    · -- a timer that is armed here is still armed at the end, as the state is not scheduled again
      have hhead : s = state := by
        rcases List.mem_cons.mp hs with hs | hs
        · exact (Fired.schedule.inj hs).1
        · exact absurd ⟨d, hs⟩ hrest
      subst hhead
      exact ⟨_, h.kept _ ((hmem _).mpr (.inr rfl)) (not_exists.mp hrest), rfl⟩

theorem Arms.skip {t r : Timers} {f : Fired} {rest : List Fired}
    (hf : ∀ state delay, f ≠ .schedule state delay) (h : Arms t r rest) : Arms t r (f :: rest) := by
  have hmem : ∀ state d, .schedule state d ∈ f :: rest ↔ .schedule state d ∈ rest := by
    intro state d
    simp [(hf state d).symm]
  refine ⟨h.sound, h.generation, ?_, ?_, ?_⟩ <;> simp only [hmem]
  · exact h.origin
  · exact h.kept
  · exact h.started

theorem arms_foldl (wake : Duration → Nat) {t : Traced Timers} (sound : t.1.Sound)
    (fired : List Fired) : Arms t.1 (fired.foldl (armStep wake) t).1 fired := by
  induction fired generalizing t with
  | nil => exact ⟨sound, Nat.le_refl _, by simp, by simp, by simp⟩
  | cons f rest ih =>
    cases f with
    | schedule state delay =>
      have h := ih (t := armStep wake t (.schedule state delay)) (sound_arm sound wake state delay)
      exact h.cons sound
    | cancel state => exact (ih sound).skip fun _ _ => Fired.noConfusion
    | run name => exact (ih sound).skip fun _ _ => Fired.noConfusion
    | assign name => exact (ih sound).skip fun _ _ => Fired.noConfusion

/-- What a registry has become when it has followed what a step fired: a timer armed before stays
if the step left its state alone, and one that the step started is of a new generation. -/
structure Followed (t r : Timers) (fired : List Fired) : Prop where
  sound : r.Sound
  generation : t.generation ≤ r.generation
  origin : ∀ a ∈ r.armed,
    (a ∈ t.armed ∧ .cancel a.state ∉ fired ∧ ∀ d, .schedule a.state d ∉ fired) ∨
      (t.generation < a.generation ∧ ∃ d, .schedule a.state d ∈ fired)
  kept : ∀ a ∈ t.armed, .cancel a.state ∉ fired → (∀ d, .schedule a.state d ∉ fired) → a ∈ r.armed
  started : ∀ state d, .schedule state d ∈ fired → ∃ a ∈ r.armed, a.state = state

theorem followed_apply {t : Timers} (sound : t.Sound) (wake : Duration → Nat) (fired : List Fired) :
    Followed t (t.apply wake fired).1 fired := by
  obtain ⟨hsound, hgen, hmem⟩ := foldl_cancelStep (t := (t, [])) sound fired
  have arms := arms_foldl wake hsound fired
  refine ⟨arms.sound, hgen ▸ arms.generation, fun a ha => ?_, fun a ha hc hd => ?_, arms.started⟩
  · rcases arms.origin a ha with ⟨hold, hd⟩ | ⟨hnew, hd⟩
    · obtain ⟨hold, hc⟩ := (hmem a).mp hold
      exact .inl ⟨hold, hc, hd⟩
    · exact .inr ⟨hgen ▸ hnew, hd⟩
  · exact arms.kept a ((hmem a).mpr ⟨ha, hc⟩) hd

end Statechart.Timers
