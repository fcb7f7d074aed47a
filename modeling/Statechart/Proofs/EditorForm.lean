import Statechart.Proofs.EditorContent
import Statechart.Proofs.WireForms

/-! The wire form of an editor's context. A content that is null is written as no content is, and is
read as none, while the event that brings it keeps it. Every other context survives. -/
namespace Statechart.Editor

open Wire

theorem decode_context (fields : List (String × Json)) :
    decode (.obj fields) = (do
      let content ← fieldOr fields "content" none
      return (⟨content⟩ : EditorContext Json)) :=
  rfl

theorem decode_encode_content (content : Option Json) :
    decode (encode content) = some (content.filter (· ≠ .null)) := by
  by_cases hnull : content = some .null
  · rw [hnull]
    rfl
  · have hne : ∀ v ∈ content, v ≠ .null := by
      rintro v hv rfl
      exact hnull hv
    have hkept : content.filter (· ≠ .null) = content := by
      cases content with
      | none => rfl
      | some v => exact Option.filter_some_pos (decide_eq_true (hne v rfl))
    rw [hkept]
    exact decode_encode_option hne

/-- A null content is lost on the way, and nothing else is. -/
theorem decode_encode_context (c : EditorContext Json) :
    decode (encode c) = some (⟨c.content.filter (· ≠ .null)⟩ : EditorContext Json) := by
  rw [show encode c = .obj [("content", encode c.content)] from rfl, decode_context,
    fieldOr_self (decode_encode_content c.content)]
  rfl

theorem context_survives_iff {c : EditorContext Json} :
    decode (encode c) = some c ↔ c.content ≠ some .null := by
  obtain ⟨content⟩ := c
  rw [decode_encode_context, Option.some_inj, EditorContext.mk.injEq]
  cases content with
  | none => simp
  | some v => by_cases hnull : v = .null <;> simp [hnull]

section

variable {T : Type} {isDirty : DirtyTest T} {idleDelay : Option Duration}

theorem turn_content (context : EditorContext T) (dirty idle : Bool) (content : T) :
    (turn isDirty idleDelay context (.editable dirty idle)
      (.event (.contentUpdated content))).context = ⟨some content⟩ := by
  cases dirty with
  | false =>
    unfold turn
    dsimp only
    split <;> rfl
  | true => rfl

end

/-- A context survives its wire form unless its content is null. An editor that is editable keeps
in its context the last content it was given since it came to be pristine, so it is there that a
null is lost: the event it came with survives, and so does every other content. -/
theorem survives_unless_null (isDirty : DirtyTest Json) (idleDelay : Option Duration) :
    (∀ c : EditorContext Json,
      decode (encode c) = some (⟨c.content.filter (· ≠ .null)⟩ : EditorContext Json) ∧
        (decode (encode c) = some c ↔ c.content ≠ some .null)) ∧
    ∃ m, (spec isDirty idleDelay).build = .ok m ∧
      ∀ triggers : List (Trigger (EditorEvent Json)), ∃ strides s,
        m.Trace strides s ∧ strides.map (·.trigger) = triggers ∧
        (s.configuration.isActive ⟨"editable"⟩ = true →
          (decode (encode s.context) = some s.context ↔
            (contents (period strides)).getLast? ≠ some .null) ∧
          ∀ v : Json,
            decode (encode (EditorEvent.contentUpdated v)) =
              some (EditorEvent.contentUpdated v) ∧
            ∃ next, m.transition s (.event (.contentUpdated v)) = .ok next ∧
              next.context = ⟨some v⟩ ∧
              decode (encode next.context) =
                some (⟨if v = .null then none else some v⟩ : EditorContext Json)) := by
  refine ⟨fun c => ⟨decode_encode_context c, context_survives_iff⟩, machine isDirty idleDelay,
    build_spec isDirty idleDelay, fun triggers => ?_⟩
  obtain ⟨strides, s, trace, rfl⟩ := (isTree_machine isDirty idleDelay).exists_trace triggers
  obtain ⟨mode, hs, -, tracks⟩ := tracks_trace trace
  refine ⟨strides, s, trace, rfl, fun heditable => ?_⟩
  rw [hs.editable] at heditable
  cases mode with
  | uneditable locked denied => cases heditable
  | editable dirty idle =>
    refine ⟨by rw [context_survives_iff, tracks.1], fun v => ⟨decode_encode _, ?_⟩⟩
    let next := turn isDirty idleDelay s.context (.editable dirty idle) (.event (.contentUpdated v))
    have hcontext : next.context = ⟨some v⟩ := turn_content s.context dirty idle v
    refine ⟨_, transition_turn hs _, hcontext, ?_⟩
    change decode (encode next.context) = _
    rw [decode_encode_context, hcontext]
    by_cases hnull : v = .null <;> simp [hnull]

/-- An editor that is given null as its first content. -/
theorem null_content_lost :
    ∃ m, (spec (fun _ _ => .clean) none).build = .ok m ∧
      ∃ next, m.transition m.initial (.event (.contentUpdated Json.null)) = .ok next ∧
        next.context = ⟨some .null⟩ ∧
        decode (encode (EditorEvent.contentUpdated Json.null)) =
          some (EditorEvent.contentUpdated Json.null) ∧
        decode (encode next.context) = some (⟨none⟩ : EditorContext Json) := by
  refine ⟨machine (fun _ _ => .clean) none, build_spec _ _, _,
    transition_turn (initial_configuration _ _) _, rfl, rfl, rfl⟩

end Statechart.Editor
