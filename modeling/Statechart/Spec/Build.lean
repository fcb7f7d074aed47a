import Statechart.Spec.Target

/-! Checking a declaration and turning it into a chart. All problems are reported: those of the tree
in tree order, then those of event transitions, then those of delayed ones, in document order. -/
namespace Statechart

def isValidKey (key : String) : Bool :=
  key != "" && !key.toList.contains '.' && !key.toList.contains '#'

theorem valid_of_isValidKey {key : String} (h : isValidKey key = true) :
    key ≠ "" ∧ '.' ∉ key.toList ∧ '#' ∉ key.toList := by
  simpa [isValidKey, and_assoc] using h

namespace StateSpec

variable {C E : Type}

/-- How a problem names the state at a path of the chart. -/
def label (chart : String) (path : Path) : String :=
  if path.isRoot then "#" ++ chart else path.text

def initialProblems (s : StateSpec C E) (label : String) : List Problem :=
  match s.shape, s.initial with
  | .compound, _ | _, none => []
  | _, some initial => [.initialOnNonCompound label initial]

/-- A compound state without children is reported for that alone, unless it names an initial one. -/
def childProblems (s : StateSpec C E) (label : String) : List Problem :=
  match s.shape with
  | .atomic => if s.states.isEmpty then [] else [.atomicWithChildren label]
  | .parallel => if s.states.isEmpty then [.noChildren label] else []
  | .compound =>
    (if s.states.isEmpty then [.noChildren label] else []) ++
      match s.initial with
      | none => if s.states.isEmpty then [] else [.missingInitial label]
      | some initial =>
        if s.states.any (·.key == initial) then [] else [.unknownInitial label initial]

mutual
/-- The problems of a state and of the states below it; `seen` are the paths declared before it. -/
def problems (chart : String) (seen : List Path) (path : Path) : StateSpec C E → List Problem
  | ⟨key, shape, initial, entry, exit, on, after, states⟩ =>
    let s : StateSpec C E := ⟨key, shape, initial, entry, exit, on, after, states⟩
    let label := label chart path
    (if seen.contains path then [.duplicateState label] else []) ++
      (if after.length ≤ 1 then [] else [.duplicateDelay label]) ++
      problemsAll chart (path :: seen) path states ++
      s.initialProblems label ++ s.childProblems label

def problemsAll (chart : String) (seen : List Path) (path : Path) :
    List (StateSpec C E) → List Problem
  | [] => []
  | s :: rest =>
    let below := (s.layout [] (path.child s.key) 0).map (·.path)
    (if isValidKey s.key then [] else [.invalidKey s.key]) ++
      problems chart seen (path.child s.key) s ++
      problemsAll chart (below ++ seen) path rest
end

end StateSpec

namespace Entry

variable {C E : Type}

/-- The declared kind. A compound state without its initial child counts as atomic. -/
def kind (e : Entry C E) : Kind :=
  match e.spec.shape with
  | .atomic => .atomic
  | .parallel => .parallel
  | .compound =>
    match (e.spec.states.zip e.children).find? fun c => e.spec.initial == some c.1.key with
    | some (_, id) => .compound id
    | none => .atomic

def resolveOn (chart : String) (index : Path → Option NodeId) (e : Entry C E) :
    List (String × Except Problem (Candidate C E)) :=
  e.spec.on.map fun (event, t) => (event, t.resolve chart index e.path event)

/-- Only the first delayed transition counts. -/
def resolveAfter (chart : String) (index : Path → Option NodeId) (e : Entry C E) :
    Option (Duration × Except Problem (Candidate C E)) :=
  e.spec.after.head?.map fun (delay, t) =>
    (delay, t.resolve chart index e.path (Trigger.delayText e.path))

def node (chart : String) (index : Path → Option NodeId) (e : Entry C E) : Node C E where
  id := e.id
  key := e.spec.key
  path := e.path
  kind := e.kind
  ancestors := e.ancestors
  children := e.children
  entry := e.spec.entry
  exit := e.spec.exit
  on := (e.resolveOn chart index).filterMap fun (event, c) => c.toOption.map (event, ·)
  after := (e.resolveAfter chart index).bind fun (delay, c) => c.toOption.map (⟨delay, ·⟩)

end Entry

def problem? {α : Type} : Except Problem α → Option Problem
  | .ok _ => none
  | .error p => some p

namespace ChartSpec

variable {C E : Type}

def index (spec : ChartSpec C E) : Path → Option NodeId := idAt spec.entries

def treeProblems (spec : ChartSpec C E) : List Problem :=
  spec.root.problems spec.name [] .root

def eventProblems (spec : ChartSpec C E) : List Problem :=
  let entries := spec.entries
  let index := idAt entries
  entries.flatMap fun e => (e.resolveOn spec.name index).filterMap fun (_, c) => problem? c

def delayProblems (spec : ChartSpec C E) : List Problem :=
  let entries := spec.entries
  let index := idAt entries
  entries.filterMap fun e => (e.resolveAfter spec.name index).bind fun (_, c) => problem? c

def problems (spec : ChartSpec C E) : List Problem :=
  spec.treeProblems ++ spec.eventProblems ++ spec.delayProblems

/-- The chart as declared, without the transitions whose names do not resolve. -/
def chart (spec : ChartSpec C E) : Chart C E :=
  let entries := spec.entries
  let index := idAt entries
  { name := spec.name
    nodes := (entries.map (·.node spec.name index)).toArray
    context := spec.context }

def build (spec : ChartSpec C E) : Except Problem (Chart C E) :=
  match Problem.report spec.problems with
  | none => .ok spec.chart
  | some p => .error p

end ChartSpec
end Statechart
