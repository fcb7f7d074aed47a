import Statechart.Editor.Hooks
import Statechart.Proofs.EditorObserver
import Statechart.Proofs.Timely

/-! Hooks that return. Whatever an editor asks for in a turn, its handler knows, and the content is
there when it has to be. -/
namespace Statechart

variable {T W : Type}

def Hook.Returns (hook : Hook W) : Prop := ∀ world, (hook world).1 = .returned

namespace Hooks

/-- Every hook that is set returns. -/
structure Return (hooks : Hooks T W) : Prop where
  contentDirty : ∀ content, (hooks.onContentDirty content).Returns
  editable : hooks.onEditable.Returns
  uneditable : hooks.onUneditable.Returns
  resetEditor : hooks.onResetEditor.Returns
  active : ∀ hook ∈ hooks.onActive, hook.Returns
  idle : ∀ hook ∈ hooks.onIdle, hook.Returns

theorem call_done {hook : Hook W} (returns : hook.Returns) (world : W) :
    (call hook world).1 = .done :=
  congrArg Ending.outcome (returns world)

theorem callIfSet_done {hook : Option (Hook W)} (returns : ∀ h ∈ hook, h.Returns) (world : W) :
    (callIfSet hook world).1 = .done := by
  cases hook with
  | none => rfl
  | some hook => exact call_done (returns hook rfl) world

/-- The names of the hooks that need no content. -/
def plainNames : List String :=
  ["notifyEditable", "notifyUneditable", "notifyResetEditor", "notifyActive", "notifyIdle"]

variable {hooks : Hooks T W}

theorem Return.done (returns : hooks.Return) {name : String} {context : EditorContext T}
    (known : name ∈ plainNames ∨ name = "notifyContentDirty" ∧ context.content.isSome = true)
    (world : W) : (hooks.handler.handle name context world).1 = .done := by
  rcases known with hplain | ⟨rfl, hcontent⟩
  · simp only [plainNames, List.mem_cons, List.not_mem_nil, or_false] at hplain
    rcases hplain with rfl | rfl | rfl | rfl | rfl
    · exact call_done returns.editable world
    · exact call_done returns.uneditable world
    · exact call_done returns.resetEditor world
    · exact callIfSet_done returns.active world
    · exact callIfSet_done returns.idle world
  · obtain ⟨content, hcontent⟩ := Option.isSome_iff_exists.mp hcontent
    simp only [handler, if_true, hcontent]
    exact call_done (returns.contentDirty content) world

theorem Return.handler_returns (returns : hooks.Return) : hooks.handler.Returns := by
  intro name context world
  by_cases known : name ∈ plainNames ∨ name = "notifyContentDirty" ∧ context.content.isSome = true
  · simp [returns.done known world]
  · obtain ⟨hplain, hcontent⟩ := not_or.mp known
    simp only [plainNames, List.mem_cons, List.not_mem_nil, or_false, not_or] at hplain
    obtain ⟨h₁, h₂, h₃, h₄, h₅⟩ := hplain
    by_cases hname : name = "notifyContentDirty"
    · have hnone : context.content = none := by simpa [hname] using hcontent
      simp [handler, hname, hnone]
    · simp [handler, hname, h₁, h₂, h₃, h₄, h₅]

end Hooks

namespace Editor

variable {isDirty : DirtyTest T} {idleDelay : Option Duration} {context : EditorContext T}
  {mode : Mode} {trigger : Trigger (EditorEvent T)} {next : Turn T} {hooks : Hooks T W}

theorem serves_of_names (returns : hooks.Return) {s : Snapshot (EditorContext T)}
    (known : ∀ name ∈ Handler.runNames s.fired, name ∈ Hooks.plainNames ∨
      name = "notifyContentDirty" ∧ s.context.content.isSome = true) :
    hooks.handler.Serves s := by
  intro call hcall world
  obtain ⟨name, hname, rfl⟩ := List.mem_map.mp hcall
  exact returns.done (known name hname) world

theorem plain_openUp {before : List Fired} (h : Handler.runNames before = []) :
    ∀ name ∈ Handler.runNames (openUp (T := T) idleDelay before).fired,
      name ∈ Hooks.plainNames := by
  rw [runNames_openUp idleDelay h, activeNames]
  cases idleDelay.isSome <;> decide

theorem known_of_moves (moves : Moves isDirty idleDelay context mode trigger next) :
    ∀ name ∈ Handler.runNames next.fired, name ∈ Hooks.plainNames ∨
      name = "notifyContentDirty" ∧ next.context.content.isSome = true := by
  intro name hname
  cases moves with
  | stays => cases hname
  | accepts => cases hname
  | soils =>
    rw [runNames_soil] at hname
    rcases List.mem_cons.mp hname with rfl | hactive
    · exact .inr ⟨rfl, rfl⟩
    · refine .inl ?_
      revert hactive
      rw [activeNames]
      cases idleDelay.isSome <;> simp +contextual [Hooks.plainNames]
  | resets => exact .inl (plain_openUp (runNames_departures ..) name hname)
  | tires =>
    obtain rfl : name = "notifyIdle" := List.mem_singleton.mp hname
    exact .inl (by decide)
  | closes =>
    rw [runNames_closeDown] at hname
    refine .inl ?_
    revert name
    decide
  | shifts => cases hname
  | opens => exact .inl (plain_openUp rfl name hname)

/-- An editor whose hooks return gets all that it asks for in a turn. -/
theorem serves_turn (returns : hooks.Return)
    (moves : Moves isDirty idleDelay context mode trigger next) (text : String) :
    hooks.handler.Serves (next.snapshot isDirty idleDelay text) :=
  serves_of_names returns (known_of_moves moves)

theorem serves_initial (returns : hooks.Return) (isDirty : DirtyTest T)
    (idleDelay : Option Duration) : hooks.handler.Serves (machine isDirty idleDelay).initial := by
  rw [initial_turn]
  exact serves_of_names returns fun name hname => .inl (plain_openUp (T := T) rfl name hname)

end Editor
end Statechart
