import Statechart.Handler

/-! The calls that a step asks for, and those of them that a handler gets: in order, up to and
including the first that fails, if it does not crash on the way. -/
namespace Statechart

variable {W C : Type}

/-- The calls that a snapshot asks for, each with the context it is made with. -/
def Snapshot.calls (s : Snapshot C) : List (String × C) :=
  (Handler.runNames s.fired).map (·, s.context)

namespace Handler

/-- Every call comes back, whether it does well or fails. -/
def Returns (h : Handler W C) : Prop :=
  ∀ name context world, (h.handle name context world).1 ≠ .crashed

/-- From the calls that are asked for and the world they find: the calls that are made, the error
that stopped them, and the world they leave. -/
inductive Calls (h : Handler W C) :
    List (String × C) → W → List (String × C) → Option ActionError → W → Prop where
  | none {world : W} : Calls h [] world [] none world
  | done {name : String} {context : C} {rest made : List (String × C)} {world next final : W}
      {error : Option ActionError} : h.handle name context world = (.done, next) →
      Calls h rest next made error final →
      Calls h ((name, context) :: rest) world ((name, context) :: made) error final
  | failed {name : String} {context : C} {rest : List (String × C)} {world next : W}
      {e : ActionError} : h.handle name context world = (.failed e, next) →
      Calls h ((name, context) :: rest) world [(name, context)] (some e) next

/-- Of the calls that are asked for, one crashes, and those before it do well. -/
inductive Crashes (h : Handler W C) : List (String × C) → W → Prop where
  | here {name : String} {context : C} {rest : List (String × C)} {world : W} :
      (h.handle name context world).1 = .crashed → Crashes h ((name, context) :: rest) world
  | later {name : String} {context : C} {rest : List (String × C)} {world next : W} :
      h.handle name context world = (.done, next) → Crashes h rest next →
      Crashes h ((name, context) :: rest) world

def after (h : Handler W C) (world : W) (calls : List (String × C)) : W :=
  calls.foldl (fun world call => (h.handle call.1 call.2 world).2) world

variable {h : Handler W C}

theorem after_append (world : W) (calls calls' : List (String × C)) :
    h.after world (calls ++ calls') = h.after (h.after world calls) calls' :=
  List.foldl_append

theorem Calls.world_eq {asked made : List (String × C)} {world final : W}
    {error : Option ActionError} (calls : h.Calls asked world made error final) :
    final = h.after world made := by
  induction calls with
  | none => rfl
  | done hdone _ ih => rw [ih, after, after, List.foldl_cons, hdone]
  | failed hfailed => rw [after, List.foldl_cons, hfailed, List.foldl_nil]

theorem Calls.made_eq {asked made : List (String × C)} {world final : W}
    {error : Option ActionError} (calls : h.Calls asked world made error final)
    (hnone : error = .none) : made = asked := by
  induction calls with
  | none => rfl
  | done _ _ ih => rw [ih hnone]
  | failed _ => cases hnone

theorem Calls.calm {asked made : List (String × C)} {world final : W} {error : Option ActionError}
    (calls : h.Calls asked world made error final) : ¬h.Crashes asked world := by
  intro crashes
  induction calls with
  | none => cases crashes
  | done hdone _ ih =>
    cases crashes with
    | here hcrashed => rw [hdone] at hcrashed; cases hcrashed
    | later hdone' hrest =>
      obtain rfl := (Prod.mk.inj (hdone.symm.trans hdone')).2
      exact ih hrest
  | failed hfailed =>
    cases crashes with
    | here hcrashed => rw [hfailed] at hcrashed; cases hcrashed
    | later hdone _ => rw [hfailed] at hdone; cases hdone

theorem Returns.calm (returns : h.Returns) (calls : List (String × C)) (world : W) :
    ¬h.Crashes calls world := by
  intro crashes
  induction crashes with
  | here hcrashed => exact returns _ _ _ hcrashed
  | later _ _ ih => exact ih

theorem performNames_cases (h : Handler W C) (context : C) (names : List String) (world : W) :
    (∃ made error,
      h.Calls (names.map (·, context)) world made error
        (h.performNames context names world).world ∧
      (h.performNames context names world).outcome = error.elim .done .failed) ∨
    (h.Crashes (names.map (·, context)) world ∧
      (h.performNames context names world).outcome = .crashed) := by
  induction names generalizing world with
  | nil => exact .inl ⟨[], none, .none, rfl⟩
  | cons name rest ih =>
    rw [performNames]
    cases hcall : h.handle name context world with
    | mk outcome next =>
      cases outcome with
      | done =>
        rcases ih next with ⟨made, error, calls, houtcome⟩ | ⟨crashes, houtcome⟩
        · exact .inl ⟨_, error, .done hcall calls, houtcome⟩
        · exact .inr ⟨.later hcall crashes, houtcome⟩
      | failed e => exact .inl ⟨_, some e, .failed hcall, rfl⟩
      | crashed => exact .inr ⟨.here (congrArg Prod.fst hcall), rfl⟩

/-- A handler that does not crash gets the calls that a snapshot asks for until one fails. -/
theorem perform_calls {s : Snapshot C} {world : W} (calm : ¬h.Crashes s.calls world) :
    ∃ made error, h.Calls s.calls world made error (h.perform s world).world ∧
      (h.perform s world).outcome = error.elim .done .failed :=
  (performNames_cases h s.context (runNames s.fired) world).resolve_right fun crash => calm crash.1

theorem perform_crashed_iff {s : Snapshot C} {world : W} :
    (h.perform s world).outcome = .crashed ↔ h.Crashes s.calls world := by
  rcases performNames_cases h s.context (runNames s.fired) world with
    ⟨made, error, calls, houtcome⟩ | ⟨crashes, houtcome⟩
  · refine iff_of_false ?_ calls.calm
    rw [perform, houtcome]
    cases error <;> simp
  · exact iff_of_true houtcome crashes

end Handler
end Statechart
