import Mathlib.Data.List.DropRight
import Statechart.Proofs.EditorMoves

/-! The content of an editor and whether it is dirty follow from the contents it was given since it
last came to be pristine. While the editor is uneditable its content rests. -/
namespace Statechart.Editor

variable {T : Type}

/-- The step entered the pristine state, whose entry alone resets the content. -/
def entersPristine (stride : EditorStride T) : Bool :=
  stride.after.fired.contains (.assign "resetContent")

/-- The editor became editable in the step, or was dirty and released. -/
def Renews (stride : EditorStride T) : Prop :=
  (stride.before.configuration.isActive ⟨"uneditable"⟩ = true ∧
      stride.after.configuration.isActive ⟨"editable"⟩ = true) ∨
    (stride.before.configuration.isActive ⟨"editable.dirty"⟩ = true ∧
      stride.trigger = .event .localLockReleased)

/-- The steps since the editor last came to be pristine. -/
def period (strides : List (EditorStride T)) : List (EditorStride T) :=
  strides.rtakeWhile (!entersPristine ·)

def contents (strides : List (EditorStride T)) : List T :=
  strides.filterMap fun stride => stride.trigger.event?.bind (·.content?)

/-- Some content was judged dirty against the one before it, the first against none. -/
def Soiled (isDirty : DirtyTest T) (contents : List T) : Prop :=
  ∃ earlier content later, contents = earlier ++ content :: later ∧
    isDirty earlier.getLast? content = .dirty

/-- The editor became uneditable in the step `closing` and has been so ever since, with one and the
same context. -/
structure Closed (context : EditorContext T) (closing : EditorStride T)
    (since : List (EditorStride T)) : Prop where
  before : closing.before.configuration.isActive ⟨"editable"⟩ = true
  after : ∀ stride ∈ closing :: since, stride.after.configuration.isActive ⟨"uneditable"⟩ = true
  kept : ∀ stride ∈ closing :: since, stride.after.context = closing.before.context
  now : context = closing.before.context

section

variable {strides : List (EditorStride T)} {stride : EditorStride T}

theorem contents_append (strides strides' : List (EditorStride T)) :
    contents (strides ++ strides') = contents strides ++ contents strides' :=
  List.filterMap_append ..

theorem contents_singleton (h : ∀ content, stride.trigger ≠ .event (.contentUpdated content)) :
    contents [stride] = [] := by
  refine List.filterMap_eq_nil_iff.mpr fun other hother => ?_
  obtain rfl := List.mem_singleton.mp hother
  rcases htrigger : other.trigger with _ | event | state
  · rfl
  · cases event with
    | contentUpdated content => exact absurd htrigger (h content)
    | _ => rfl
  · rfl

theorem period_concat_of_enters (h : entersPristine stride = true) :
    period (strides ++ [stride]) = [] :=
  List.rtakeWhile_concat_neg _ _ _ (by simp [h])

theorem period_concat (h : entersPristine stride = false) :
    period (strides ++ [stride]) = period strides ++ [stride] :=
  List.rtakeWhile_concat_pos _ _ _ (by simp [h])

end

theorem not_soiled_nil (isDirty : DirtyTest T) : ¬Soiled isDirty [] := by
  rintro ⟨earlier, content, later, h, -⟩
  simp at h

theorem soiled_concat {isDirty : DirtyTest T} {contents : List T} {content : T} :
    Soiled isDirty (contents ++ [content]) ↔
      Soiled isDirty contents ∨ isDirty contents.getLast? content = .dirty := by
  constructor
  · rintro ⟨earlier, first, later, h, hdirty⟩
    rcases later.eq_nil_or_concat with rfl | ⟨later, last, rfl⟩
    · obtain ⟨rfl, hlast⟩ := List.append_inj' h rfl
      obtain rfl : content = first := by simpa using hlast
      exact .inr hdirty
    · have h' : contents ++ [content] = (earlier ++ first :: later) ++ [last] := by simpa using h
      obtain ⟨rfl, -⟩ := List.append_inj' h' rfl
      exact .inl ⟨earlier, first, later, rfl, hdirty⟩
  · rintro (⟨earlier, first, later, rfl, hdirty⟩ | hdirty)
    · exact ⟨earlier, first, later ++ [content], by simp, hdirty⟩
    · exact ⟨contents, content, [], rfl, hdirty⟩

/-- What the strides so far tell about an editor in a mode. -/
def Tracks (isDirty : DirtyTest T) (strides : List (EditorStride T)) (context : EditorContext T) :
    Mode → Prop
  | .editable dirty _ =>
    context.content = (contents (period strides)).getLast? ∧
      (dirty = true ↔ Soiled isDirty (contents (period strides)))
  | .uneditable _ _ =>
    ∃ earlier closing since, strides = earlier ++ closing :: since ∧ Closed context closing since

section

variable {isDirty : DirtyTest T} {idleDelay : Option Duration} {strides : List (EditorStride T)}
  {stride : EditorStride T} {s : Snapshot (EditorContext T)} {mode : Mode}
  {trigger : Trigger (EditorEvent T)} {next : Turn T}

theorem tracks_pristine (h : entersPristine stride = true) (idle : Bool) :
    Tracks isDirty (strides ++ [stride]) ⟨none⟩ (.editable false idle) := by
  simp only [Tracks, period_concat_of_enters h]
  exact ⟨rfl, by simp [contents, not_soiled_nil]⟩

theorem Tracks.keep {context : EditorContext T} {dirty idle : Bool}
    (tracks : Tracks isDirty strides context (.editable dirty idle)) (idle' : Bool)
    (henters : entersPristine stride = false) (hcontents : contents [stride] = []) :
    Tracks isDirty (strides ++ [stride]) context (.editable dirty idle') := by
  simpa only [Tracks, period_concat henters, contents_append, hcontents, List.append_nil]
    using tracks

theorem Tracks.update {context : EditorContext T} {dirty idle : Bool} {content : T}
    (tracks : Tracks isDirty strides context (.editable dirty idle)) (idle' : Bool)
    (henters : entersPristine stride = false) (hcontents : contents [stride] = [content])
    {dirty' : Bool}
    (hdirty : dirty' = true ↔ dirty = true ∨ isDirty context.content content = .dirty) :
    Tracks isDirty (strides ++ [stride]) ⟨some content⟩ (.editable dirty' idle') := by
  obtain ⟨hcontent, hsoiled⟩ := tracks
  simp only [Tracks, period_concat henters, contents_append, hcontents, List.getLast?_concat,
    soiled_concat, true_and]
  rw [hdirty, hsoiled, hcontent]

theorem Closed.concat {context : EditorContext T} {closing : EditorStride T}
    {since : List (EditorStride T)} (closed : Closed context closing since)
    (huneditable : stride.after.configuration.isActive ⟨"uneditable"⟩ = true)
    (hcontext : stride.after.context = context) : Closed context closing (since ++ [stride]) where
  before := closed.before
  after := by
    rw [← List.cons_append, List.forall_mem_append]
    exact ⟨closed.after, by simpa using huneditable⟩
  kept := by
    rw [← List.cons_append, List.forall_mem_append]
    exact ⟨closed.kept, by simpa [hcontext] using closed.now⟩
  now := closed.now

theorem Tracks.rest {context : EditorContext T} {locked denied : Bool}
    (tracks : Tracks isDirty strides context (.uneditable locked denied)) (locked' denied' : Bool)
    (huneditable : stride.after.configuration.isActive ⟨"uneditable"⟩ = true)
    (hcontext : stride.after.context = context) :
    Tracks isDirty (strides ++ [stride]) context (.uneditable locked' denied') := by
  obtain ⟨earlier, closing, since, rfl, closed⟩ := tracks
  exact ⟨earlier, closing, since ++ [stride], by simp, closed.concat huneditable hcontext⟩

@[simp] theorem assign_not_mem_departures (name : String) (dirty idle : Bool) :
    .assign name ∉ departures dirty idle idleDelay := by
  unfold departures
  split <;> simp

@[simp] theorem assign_not_mem_arrivals (name : String) (dirty : Bool) :
    .assign name ∉ arrivals dirty idleDelay := by
  cases idleDelay <;> simp [arrivals]

/-- The editor comes to be pristine just when it becomes editable, or is dirty and released. -/
theorem entersPristine_iff (hs : Shows isDirty idleDelay s mode)
    (moves : Moves isDirty idleDelay s.context mode trigger next) :
    entersPristine ⟨s, trigger, next.snapshot isDirty idleDelay trigger.text⟩ = true ↔
      (mode.isEditable = false ∧ next.mode.isEditable = true) ∨
        (mode.isSoiled = true ∧ trigger = .event .localLockReleased) := by
  cases moves with
  | stays ignores =>
    rcases mode with ⟨dirty, idle⟩ | ⟨locked, denied⟩
    · simpa [entersPristine, Turn.snapshot, stay, Mode.isEditable, Mode.isSoiled]
        using (ignores dirty idle rfl).2
    · simp [entersPristine, Turn.snapshot, stay, Mode.isEditable, Mode.isSoiled]
  | closes hother =>
    simp [entersPristine, Turn.snapshot, closeDown, Mode.isEditable, hother]
  | accepts | soils | resets | tires | shifts | opens =>
    simp [entersPristine, Turn.snapshot, soil, openUp, Mode.isEditable, Mode.isSoiled]

theorem Tracks.move (hs : Shows isDirty idleDelay s mode)
    (tracks : Tracks isDirty strides s.context mode)
    (moves : Moves isDirty idleDelay s.context mode trigger next) :
    Tracks isDirty (strides ++ [⟨s, trigger, next.snapshot isDirty idleDelay trigger.text⟩])
      next.context next.mode := by
  have henters := entersPristine_iff hs moves
  have hleaves := Bool.eq_false_iff.trans henters.not
  have hnext : Shows isDirty idleDelay (next.snapshot isDirty idleDelay trigger.text) next.mode :=
    rfl
  cases moves with
  | stays ignores =>
    rcases mode with ⟨dirty, idle⟩ | ⟨locked, denied⟩
    · obtain ⟨hcontent, hreleased⟩ := ignores dirty idle rfl
      refine tracks.keep idle (hleaves.mpr ?_) (contents_singleton hcontent)
      simpa [Mode.isEditable, Mode.isSoiled] using hreleased
    · exact tracks.rest locked denied (by rw [hnext.uneditable]; rfl) rfl
  | accepts hclean =>
    refine tracks.update _ (hleaves.mpr ?_) rfl (by simpa using hclean)
    simp [Mode.isEditable]
  | soils hdirty =>
    refine tracks.update _ (hleaves.mpr ?_) rfl (by simpa using hdirty)
    simp [Mode.isEditable]
  | resets =>
    refine tracks_pristine (henters.mpr ?_) false
    simp [Mode.isSoiled]
  | tires htimed =>
    refine tracks.keep true (hleaves.mpr ?_) rfl
    simp [Mode.isEditable]
  | closes hother =>
    refine ⟨strides, _, [], rfl, by rw [hs.editable]; rfl, ?_, ?_, rfl⟩
    · simp only [List.mem_singleton, forall_eq, hnext.uneditable]
      rfl
    · simp only [List.mem_singleton, forall_eq]
      rfl
  | shifts => exact tracks.rest _ _ (by rw [hnext.uneditable]; rfl) rfl
  | opens =>
    refine tracks_pristine (henters.mpr ?_) false
    simp [openUp, Mode.isEditable]

theorem transition_content_uneditable {locked denied : Bool}
    (hs : Shows isDirty idleDelay s (.uneditable locked denied)) (content : T) :
    (machine isDirty idleDelay).transition s (.event (.contentUpdated content)) =
      .ok { s with fired := [], changed := false, faults := [], trigger := "CONTENT_UPDATED" } := by
  have hturn : turn isDirty idleDelay s.context (.uneditable locked denied)
      (.event (.contentUpdated content)) = stay (.uneditable locked denied) s.context := by
    cases locked <;> cases denied <;> rfl
  rw [transition_turn hs, hturn, Turn.snapshot, stay, ← hs]
  rfl

theorem tracks_trace (trace : (machine isDirty idleDelay).Trace strides s) :
    ∃ mode, Shows isDirty idleDelay s mode ∧
      (∀ stride ∈ strides, entersPristine stride = true ↔ Renews stride) ∧
      Tracks isDirty strides s.context mode := by
  refine trace_induction (P := fun strides mode s =>
    (∀ stride ∈ strides, entersPristine stride = true ↔ Renews stride) ∧
      Tracks isDirty strides s.context mode) ⟨by simp, rfl, ?_⟩ ?_ trace
  · simp [contents, period, not_soiled_nil]
  rintro strides s mode trigger hs ⟨hrenews, tracks⟩
  have moves := moves_turn isDirty idleDelay s.context mode trigger
  refine ⟨List.forall_mem_append.mpr ⟨hrenews, ?_⟩, tracks.move hs moves⟩
  have hnext : Shows isDirty idleDelay
      ((turn isDirty idleDelay s.context mode trigger).snapshot isDirty idleDelay trigger.text)
      (turn isDirty idleDelay s.context mode trigger).mode := rfl
  simp only [List.mem_singleton, forall_eq, Renews, hs.uneditable, hnext.editable, hs.soiled]
  rw [entersPristine_iff hs moves, Bool.not_eq_true']

end

/-- The content of an editable editor is the last one it was given since it came to be pristine, and
it is dirty just when one of these contents was judged so; to come to be pristine is to become
editable, or to be dirty and released. An uneditable editor keeps the content with which it became
so, and new ones pass it by. -/
theorem content_of_period (isDirty : DirtyTest T) (idleDelay : Option Duration) :
    ∃ m, (spec isDirty idleDelay).build = .ok m ∧
      ∀ triggers : List (Trigger (EditorEvent T)), ∃ strides s,
        m.Trace strides s ∧ strides.map (·.trigger) = triggers ∧
        (∀ stride ∈ strides, entersPristine stride = true ↔ Renews stride) ∧
        (s.configuration.isActive ⟨"editable"⟩ = true →
          s.context.content = (contents (period strides)).getLast? ∧
          (s.configuration.isActive ⟨"editable.dirty"⟩ = true ↔
            Soiled isDirty (contents (period strides)))) ∧
        (s.configuration.isActive ⟨"uneditable"⟩ = true →
          (∀ content, m.transition s (.event (.contentUpdated content)) =
            .ok { s with
              fired := [], changed := false, faults := [], trigger := "CONTENT_UPDATED" }) ∧
          ∃ earlier closing since, strides = earlier ++ closing :: since ∧
            Closed s.context closing since) := by
  refine ⟨machine isDirty idleDelay, build_spec isDirty idleDelay, fun triggers => ?_⟩
  obtain ⟨strides, s, trace, rfl⟩ := (isTree_machine isDirty idleDelay).exists_trace triggers
  obtain ⟨mode, hs, hrenews, tracks⟩ := tracks_trace trace
  refine ⟨strides, s, trace, rfl, hrenews, fun heditable => ?_, fun huneditable => ?_⟩
  · rw [hs.editable] at heditable
    rw [hs.soiled]
    cases mode with
    | editable dirty idle => exact tracks
    | uneditable locked denied => cases heditable
  · rw [hs.uneditable] at huneditable
    cases mode with
    | editable dirty idle => cases huneditable
    | uneditable locked denied =>
      exact ⟨transition_content_uneditable hs, tracks⟩

end Statechart.Editor
