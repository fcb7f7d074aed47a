import Statechart.Editor
import Statechart.Proofs.Acceptance
import Statechart.Proofs.Ancestry
import Statechart.Proofs.EditorHooks
import Statechart.Proofs.Regions

/-! What an editor asks of its hooks. From any consistent state an editor takes the turn of one of its
modes, whether or not the state lists more than its leaves, and all that a turn asks for is a hook
that the editor knows, with content where content is needed. -/
namespace Statechart

variable {C E : Type}

/-- The guard sees of a configuration only which states it makes active. -/
def Guard.SeesActive (g : Guard C E) : Prop :=
  ∀ context trigger c c', c.isActive = c'.isActive →
    g.check ⟨context, trigger, c⟩ = g.check ⟨context, trigger, c'⟩

theorem Guard.seesActive_inState (state : Path) : (inState state : Guard C E).SeesActive := by
  intro context trigger c c' h
  simp only [check_inState, GuardView.inState, h]

namespace Chart

variable {m : Chart C E}

variable [Event E]

/-- All guards of the chart see active states alone. -/
def SeesActive (m : Chart C E) : Prop :=
  ∀ i n, m.node? i = some n → (∀ x ∈ n.on, ∀ g ∈ x.2.guard, g.SeesActive) ∧
    ∀ d ∈ n.after, ∀ g ∈ d.candidate.guard, g.SeesActive

theorem choose_congr {context : C} {trigger : Trigger E} {c c' : Configuration} (source : Path)
    {candidates : List (Candidate C E)}
    (h : ∀ d ∈ candidates, d.enabled ⟨context, trigger, c⟩ = d.enabled ⟨context, trigger, c'⟩) :
    choose ⟨context, trigger, c⟩ source candidates =
      choose ⟨context, trigger, c'⟩ source candidates := by
  induction candidates with
  | nil => rfl
  | cons d rest ih =>
    unfold choose
    rw [h d List.mem_cons_self, ih fun d hd => h d (List.mem_cons_of_mem _ hd)]

theorem select_congr (sees : m.SeesActive) (context : C) (trigger : Trigger E)
    {c c' : Configuration} (h : c.isActive = c'.isActive) (active : List NodeId) :
    m.select ⟨context, trigger, c⟩ active = m.select ⟨context, trigger, c'⟩ active := by
  have hchoose : m.chooseAt ⟨context, trigger, c⟩ = m.chooseAt ⟨context, trigger, c'⟩ := by
    funext id
    unfold chooseAt
    cases hn : m.node? id with
    | none => rfl
    | some n =>
      dsimp only
      refine choose_congr n.path fun d hd => ?_
      unfold Candidate.enabled
      cases hg : d.guard with
      | none => rfl
      | some g =>
        refine (?_ : g.SeesActive) context trigger c c' h
        rcases mem_of_declared hd with ⟨event, hd⟩ | ⟨a, ha, rfl⟩
        · exact (sees id n hn).1 _ hd g hg
        · exact (sees id n hn).2 a ha g hg
  simp only [select, hchoose]

theorem step_congr (sees : m.SeesActive) {s : Snapshot C} {c : Configuration}
    (h : s.configuration.isActive = c.isActive) (trigger : Trigger E) (active : List NodeId) :
    (m.step s trigger active).fired = (m.step { s with configuration := c } trigger active).fired ∧
      (m.step s trigger active).context =
        (m.step { s with configuration := c } trigger active).context := by
  unfold step
  dsimp only
  rw [select_congr sees s.context trigger h active]
  split <;> exact ⟨rfl, rfl⟩

end Chart

namespace Editor

variable {T W : Type}

variable {isDirty : DirtyTest T} {idleDelay : Option Duration} {active : List NodeId}

theorem one_of_children (legal : (machine isDirty idleDelay).Legal active) {p a b : NodeId}
    (hp : p ∈ active) (hcompound : (machine isDirty idleDelay).isCompound p = true)
    (hchildren : (machine isDirty idleDelay).children p = [a, b]) : a ∈ active ∨ b ∈ active := by
  obtain ⟨c, ⟨hc, hact⟩, -⟩ := legal.compound p hp hcompound
  rw [hchildren] at hc
  rcases List.mem_cons.mp hc with rfl | hc
  · exact .inl hact
  · exact .inr (List.mem_singleton.mp hc ▸ hact)

theorem both_of_children (legal : (machine isDirty idleDelay).Legal active) {p a b : NodeId}
    (hp : p ∈ active) (hparallel : (machine isDirty idleDelay).isParallel p = true)
    (hchildren : (machine isDirty idleDelay).children p = [a, b]) : a ∈ active ∧ b ∈ active := by
  have hboth := legal.parallel p hp hparallel
  rw [hchildren] at hboth
  exact ⟨hboth a (by simp), hboth b (by simp)⟩

theorem exists_mode_untimed (legal : (machine isDirty none).Legal active) :
    ∃ mode : Mode, ∀ i ∈ mode.active false, i ∈ active := by
  have h₀ : 0 ∈ active := legal.rooted
  rcases one_of_children legal h₀ rfl rfl with h₁ | h₄
  · rcases one_of_children legal h₁ rfl rfl with h₂ | h₃
    · exact ⟨.editable false false, by simp [Mode.active, *]⟩
    · exact ⟨.editable true false, by simp [Mode.active, *]⟩
  · obtain ⟨h₅, h₈⟩ := both_of_children legal h₄ rfl rfl
    rcases one_of_children legal h₅ rfl rfl with h₆ | h₇ <;>
      rcases one_of_children legal h₈ rfl rfl with h₉ | h₁₀
    · exact ⟨.uneditable false false, by simp [Mode.active, *]⟩
    · exact ⟨.uneditable false true, by simp [Mode.active, *]⟩
    · exact ⟨.uneditable true false, by simp [Mode.active, *]⟩
    · exact ⟨.uneditable true true, by simp [Mode.active, *]⟩

theorem exists_mode_timed {delay : Duration} (legal : (machine isDirty (some delay)).Legal active) :
    ∃ mode : Mode, ∀ i ∈ mode.active true, i ∈ active := by
  have h₀ : 0 ∈ active := legal.rooted
  rcases one_of_children legal h₀ rfl rfl with h₁ | h₈
  · rcases one_of_children legal h₁ rfl rfl with h₂ | h₅
    · rcases one_of_children legal h₂ rfl rfl with h₃ | h₄
      · exact ⟨.editable false false, by simp [Mode.active, *]⟩
      · exact ⟨.editable false true, by simp [Mode.active, *]⟩
    · rcases one_of_children legal h₅ rfl rfl with h₆ | h₇
      · exact ⟨.editable true false, by simp [Mode.active, *]⟩
      · exact ⟨.editable true true, by simp [Mode.active, *]⟩
  · obtain ⟨h₉, h₁₂⟩ := both_of_children legal h₈ rfl rfl
    rcases one_of_children legal h₉ rfl rfl with h₁₀ | h₁₁ <;>
      rcases one_of_children legal h₁₂ rfl rfl with h₁₃ | h₁₄
    · exact ⟨.uneditable false false, by simp [Mode.active, *]⟩
    · exact ⟨.uneditable false true, by simp [Mode.active, *]⟩
    · exact ⟨.uneditable true false, by simp [Mode.active, *]⟩
    · exact ⟨.uneditable true true, by simp [Mode.active, *]⟩

/-- The legal sets of an editor are those of its modes. -/
theorem exists_mode (legal : (machine isDirty idleDelay).Legal active)
    (arranged : (machine isDirty idleDelay).Arranged active) :
    ∃ mode : Mode, active = mode.active idleDelay.isSome := by
  have hmode : ∃ mode : Mode, ∀ i ∈ mode.active idleDelay.isSome, i ∈ active := by
    cases idleDelay with
    | none => exact exists_mode_untimed legal
    | some delay => exact exists_mode_timed legal
  obtain ⟨mode, hsubset⟩ := hmode
  obtain ⟨legal', arranged', -⟩ := settled_active isDirty idleDelay mode
  -- no legal set lies strictly within another
  refine ⟨mode, arranged.ext arranged' fun i => ⟨fun hi => ?_, hsubset i⟩⟩
  exact (isTree_machine isDirty idleDelay).subset_of_legal legal' legal hsubset hi

theorem seesActive_machine (isDirty : DirtyTest T) (idleDelay : Option Duration) :
    (machine isDirty idleDelay).SeesActive := by
  have hdirty : (dirtyGuard isDirty).SeesActive := fun _ _ _ _ _ => rfl
  have hnodes : ∀ n ∈ nodes isDirty idleDelay, (∀ x ∈ n.on, ∀ g ∈ x.2.guard, g.SeesActive) ∧
      ∀ d ∈ n.after, ∀ g ∈ d.candidate.guard, g.SeesActive := by
    rcases idleDelay with _ | delay <;>
      simp only [nodes, untimedNodes, timedNodes, plain, whileIn, List.forall_mem_cons,
        List.not_mem_nil, false_imp_iff, implies_true, and_true, Option.mem_def,
        reduceCtorEq, Option.some.injEq, forall_eq', Guard.seesActive_inState, hdirty]
  intro i n hn
  exact hnodes n (List.mem_toArray.mp (Array.mem_of_getElem? hn))

/-- From any consistent state, also one that lists more than its leaves, an editor does what it does
in one of its modes. -/
theorem transition_moves {s : Snapshot (EditorContext T)}
    (consistent : (machine isDirty idleDelay).isConsistent s.configuration = true)
    (trigger : Trigger (EditorEvent T)) :
    ∃ mode turned next, Moves isDirty idleDelay s.context mode trigger turned ∧
      (machine isDirty idleDelay).transition s trigger = .ok next ∧
      next.fired = turned.fired ∧ next.context = turned.context := by
  have tree := isTree_machine isDirty idleDelay
  obtain ⟨active, hactive⟩ := Chart.activeOf_of_consistent consistent
  obtain ⟨legal, arranged⟩ := tree.legal_of_consistent hactive consistent
  obtain ⟨mode, rfl⟩ := exists_mode legal arranged
  -- the configuration that lists just the leaves of the mode
  obtain ⟨c, hc⟩ : ∃ c, c = (machine isDirty idleDelay).configurationOf
    (mode.active idleDelay.isSome) := ⟨_, rfl⟩
  have hleaves : (machine isDirty idleDelay).activeOf c = .ok (mode.active idleDelay.isSome) :=
    hc ▸ tree.activeOf_settled (settled_active isDirty idleDelay mode)
  have hsame : s.configuration.isActive = c.isActive := by
    funext p
    rw [Bool.eq_iff_iff, tree.isActive_iff hactive, tree.isActive_iff hleaves]
  obtain ⟨hfired, hcontext⟩ := Chart.step_congr (seesActive_machine isDirty idleDelay) hsame
    trigger (mode.active idleDelay.isSome)
  rw [step_turn (s := { s with configuration := c }) hc trigger] at hfired hcontext
  exact ⟨mode, _, _, moves_turn isDirty idleDelay s.context mode trigger,
    Chart.transition_of_consistent hactive consistent trigger, hfired, hcontext⟩

end Editor

namespace Hooks

variable {T W : Type} {hooks : Hooks T W}

/-- What the hooks make of all that a snapshot asks for: no call is turned down, none fails if the
hooks return, and a dirty content comes with the content. -/
structure Receive (hooks : Hooks T W) (s : Snapshot (EditorContext T)) : Prop where
  knows : hooks.handler.Knows s
  serves : hooks.Return → hooks.handler.Serves s
  content : "notifyContentDirty" ∈ Handler.runNames s.fired → s.context.content.isSome = true

theorem call_ne_failed (hook : Hook W) (world : W) (e : ActionError) :
    (call hook world).1 ≠ .failed e := by
  cases h : (hook world).1 <;> simp [call, h, Ending.outcome]

theorem callIfSet_ne_failed (hook : Option (Hook W)) (world : W) (e : ActionError) :
    (callIfSet hook world).1 ≠ .failed e := by
  cases hook with
  | none => simp [callIfSet]
  | some hook => exact call_ne_failed hook world e

theorem handle_ne_failed {name : String} {context : EditorContext T}
    (known : name ∈ plainNames ∨ name = "notifyContentDirty" ∧ context.content.isSome = true)
    (world : W) (e : ActionError) : (hooks.handler.handle name context world).1 ≠ .failed e := by
  rcases known with hplain | ⟨rfl, hcontent⟩
  · simp only [plainNames, List.mem_cons, List.not_mem_nil, or_false] at hplain
    rcases hplain with rfl | rfl | rfl | rfl | rfl
    · exact call_ne_failed hooks.onEditable world e
    · exact call_ne_failed hooks.onUneditable world e
    · exact call_ne_failed hooks.onResetEditor world e
    · exact callIfSet_ne_failed hooks.onActive world e
    · exact callIfSet_ne_failed hooks.onIdle world e
  · obtain ⟨content, hcontent⟩ := Option.isSome_iff_exists.mp hcontent
    simp only [handler, if_true, hcontent]
    exact call_ne_failed (hooks.onContentDirty content) world e

theorem receive_of_known {s : Snapshot (EditorContext T)}
    (known : ∀ name ∈ Handler.runNames s.fired, name ∈ plainNames ∨
      name = "notifyContentDirty" ∧ s.context.content.isSome = true) : hooks.Receive s where
  knows := by
    intro call hcall world e
    obtain ⟨name, hname, rfl⟩ := List.mem_map.mp hcall
    exact handle_ne_failed (known name hname) world e
  serves returns := Editor.serves_of_names returns known
  content hname := (known _ hname).elim (fun h => absurd h (by decide)) (·.2)

end Hooks

namespace Editor

variable {T W : Type}

theorem receive_initial (isDirty : DirtyTest T) (idleDelay : Option Duration)
    (hooks : Hooks T W) : hooks.Receive (machine isDirty idleDelay).initial := by
  rw [initial_turn]
  exact Hooks.receive_of_known fun name hname => .inl (plain_openUp (T := T) rfl name hname)

theorem receive_transition {isDirty : DirtyTest T} {idleDelay : Option Duration}
    (hooks : Hooks T W) {s : Snapshot (EditorContext T)}
    (consistent : (machine isDirty idleDelay).isConsistent s.configuration = true)
    (trigger : Trigger (EditorEvent T)) :
    ∃ next, (machine isDirty idleDelay).transition s trigger = .ok next ∧ hooks.Receive next := by
  obtain ⟨mode, turned, next, moves, hnext, hfired, hcontext⟩ :=
    transition_moves consistent trigger
  refine ⟨next, hnext, Hooks.receive_of_known ?_⟩
  rw [hfired, hcontext]
  exact known_of_moves moves

theorem fits_machine (isDirty : DirtyTest T) (idleDelay : Option Duration) (hooks : Hooks T W) :
    hooks.handler.Fits (machine isDirty idleDelay) where
  initial := (receive_initial isDirty idleDelay hooks).knows
  step := by
    intro s next trigger h
    obtain ⟨next', hnext', receive⟩ :=
      receive_transition hooks (Chart.consistent_of_transition h) trigger
    obtain rfl := Except.ok.inj (h.symm.trans hnext')
    exact receive.knows

/-- No editor turns down what it asks for itself. Its hooks receive all of its initial state and of
whatever a consistent state leads to, so that none of its runs and none of its services reports an
action that failed, and with hooks that return all of them succeed. -/
theorem actions_accepted (settings : EditorSettings T W) :
    ∃ editor, Editor.ofSettings settings = .ok editor ∧ editor.hooks = settings.hooks ∧
      editor.hooks.Receive editor.chart.initial ∧
      (∀ s trigger, editor.chart.isConsistent s.configuration = true →
        ∃ next, editor.chart.transition s trigger = .ok next ∧ editor.hooks.Receive next) ∧
      (∀ world, (editor.start world).Accepted ∧
        (editor.hooks.Return → (editor.start world).result = .ok editor.chart.initial)) ∧
      (∀ s event world, (editor.send s event world).Accepted ∧
        (editor.hooks.Return → editor.chart.isConsistent s.configuration = true →
          ∃ next, editor.chart.transition s (.event event) = .ok next ∧
            (editor.send s event world).result = .ok next)) ∧
      (∀ options clockwork world, (editor.spawn options clockwork world).Accepted ∧
        (editor.hooks.Return → ∃ service,
          (editor.spawn options clockwork world).result = .ok service)) ∧
      ∀ world arrived log service,
        Service.Session editor.chart editor.hooks.handler world arrived log service →
          ∀ x ∈ log, x.answer.Accepted := by
  have hbuilt : Editor.ofSettings settings =
      .ok ⟨machine settings.isDirty settings.idleDelay, settings.hooks⟩ := by
    rw [Editor.ofSettings, build_spec]
    rfl
  have fits := fits_machine settings.isDirty settings.idleDelay settings.hooks
  have initial := receive_initial settings.isDirty settings.idleDelay settings.hooks
  refine ⟨_, hbuilt, rfl, initial, fun s trigger consistent =>
    receive_transition settings.hooks consistent trigger, fun world => ⟨?_, fun returns => ?_⟩,
    fun s event world => ⟨?_, fun returns consistent => ?_⟩,
    fun options clockwork world => ⟨?_, fun returns => ?_⟩,
    fun world arrived log service session => session.accepted fits⟩
  · exact Interpreter.start_accepted fits world
  · exact Interpreter.commit_serves (initial.serves returns) world
  · exact Interpreter.send_accepted fits s (.event event) world
  · obtain ⟨next, hnext, receive⟩ :=
      receive_transition settings.hooks consistent (.event event)
    exact ⟨next, hnext, Interpreter.send_serves hnext (receive.serves returns) world⟩
  · exact Service.start_accepted fits options clockwork world
  · exact ⟨_, Service.start_serves options clockwork world (initial.serves returns)⟩

end Editor
end Statechart
