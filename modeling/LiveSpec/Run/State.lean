import LiveSpec.Command.Call
import LiveSpec.Evaluation.Scope
import LiveSpec.Outcome.Painting
import LiveSpec.Run.Nested

/-!
# The state of a run

A run works on its document, the scope of its expressions and its record. Beside them stands what a
run shares with the runs nested in it: the log of all that was watched, and the outputs of nested
runs. All of this survives an error that ends the run.
-/

namespace LiveSpec

open Markup (NodeId Tree TreeError)

/-- What a probe reports of itself in a phase. -/
structure ProbeReport where
  name : String
  phase : Phase
  id : Nat
  expression : String
  element : Spot
  context : Context
  fixtureName : String
  path : String
  /-- The text of the element that was evaluated last. -/
  text : Option Value
deriving Inhabited

/-- An entry of the log. -/
inductive LogEntry where
  /-- An event as a listener heard it, under the listener's label. -/
  | heard (label : String) (e : Event)
  | probed (r : ProbeReport)
  | value (v : Value)
  | between
  | described (text : String)
  /-- A nested run asked for a fixture. -/
  | requested (r : RunRequest)
deriving Inhabited

/-- The result of a run: the document that it changed, and all that it found out. -/
structure Output where
  resource : Resource
  html : String
  summary : Summary
  /-- The document after painting, as a tree. -/
  tree : Tree
  assets : List Asset
  diagnostics : List Diagnostic
  /-- For how many milliseconds a written asset counts as fresh. -/
  freshWindow : Nat

/-- What a run shares with the runs nested in it. -/
structure World where
  log : List LogEntry
  /-- The outputs of nested runs in the order in which they finished. -/
  outputs : List Output

/-- The world before any run. -/
def World.empty : World := ⟨[], []⟩

/-- The event of an entry, under the label of the listener that heard it. -/
def LogEntry.heard? : LogEntry → Option (String × Event)
  | .heard label e => some (label, e)
  | _ => none

/-- All events that listeners heard, each under the label of its listener, in order. -/
def World.events (w : World) : List (String × Event) := w.log.filterMap LogEntry.heard?

/-- The state of a run. -/
structure RunState (φ : Type) where
  tree : Tree
  scope : Scope φ
  record : Record
  /-- The values that calls keep, by slot; the last one counts. -/
  kept : List (Nat × Value)
  /-- The first slot that is not in use. -/
  nextSlot : Nat
  /-- What each listener heard, by its place on the bus, the last event first. -/
  heard : List (Nat × Event)
  /-- The elements that someone holds beside the record. -/
  held : List NodeId
  /-- Which calls did their part in which phase, in that order. -/
  visits : List (Phase × Occurrence)
  world : World

/-- A part of a run. -/
abbrev Run (φ : Type) := ExceptT Error (StateM (RunState φ))

/-- What a run is told from outside and does not change. -/
structure Surroundings where
  bus : Bus
  resource : Resource
  fixtureName : String
  context : Context
  maxDepth : Nat
  /-- Runs the document of a request with the runner of a name. Of the asking run it sees the world
  alone. -/
  nested : String → RunRequest → StateM World (Except RunnerError Verdict)

namespace Run

variable {φ : Type}

/-- Adds an entry to the log. -/
def log (e : LogEntry) : Run φ Unit :=
  modify fun s => { s with world := { s.world with log := s.world.log ++ [e] } }

/-- Does something in the world beside the run. -/
def inWorld {α : Type} (part : StateM World α) : Run φ α := do
  let (a, world) := part.run (← get).world
  modify fun s => { s with world := world }
  return a

/-- Reads something off the tree. -/
def look {α : Type} (f : Tree → α) : Run φ α := do return f (← get).tree

/-- Reads something off the tree that may be missing. -/
def find {α : Type} (f : Tree → Except TreeError α) : Run φ α := do
  match f (← get).tree with
  | .ok a => return a
  | .error e => throw (.element e)

/-- Changes the tree. -/
def change (f : Tree → Tree) : Run φ Unit := modify fun s => { s with tree := f s.tree }

/-- Changes the tree if that is possible. -/
def attempt (f : Tree → Except TreeError Tree) : Run φ Unit := do
  let t ← find f
  change fun _ => t

/-- Makes a node. -/
def make (f : Tree → NodeId × Tree) : Run φ NodeId := do
  let (n, t) := f (← get).tree
  change fun _ => t
  return n

/-- Changes the record. -/
def note (f : Record → Record) : Run φ Unit := modify fun s => { s with record := f s.record }

/-- Does the part of a call in a phase, and notes the visit. -/
def visit (p : Phase) (o : Occurrence) (part : Run φ Unit) : Run φ Unit := do
  modify fun s => { s with visits := s.visits ++ [(p, o)] }
  part

/-- An element as it looks now. -/
def spot (n : NodeId) : Run φ Spot := look fun t => ⟨n, t.describe n⟩

/-! ## Keeping values -/

/-- Keeps a value in a slot. -/
def keep (slot : Nat) (v : Value) : Run φ Unit :=
  modify fun s => { s with kept := (slot, v) :: s.kept }

/-- The value that a slot keeps. -/
def kept? (slot : Nat) : Run φ (Option Value) := do return (← get).kept.lookup slot

/-- A slot that nothing was kept in. -/
def freshSlot : Run φ Nat := do
  let s ← get
  set { s with nextSlot := s.nextSlot + 1 }
  return s.nextSlot

/-! ## Holding elements -/

/-- Marks the nodes of a list. -/
def marks (size : Nat) (ns : List NodeId) : Array Bool :=
  ns.foldl (fun a n => a.set! n true) (Array.replicate size false)

/-- Destroys the nodes that nobody holds any more. -/
def tidy : Run φ Unit := modify fun s =>
  let marked := marks s.tree.nodes.size (s.held ++ s.record.outcomes.map Recorded.element)
  { s with tree := s.tree.release fun n => marked.getD n false }

/-- Holds elements while a part of the run lasts. -/
def holding {α : Type} (ns : List NodeId) (part : Run φ α) : Run φ α := do
  let before := (← get).held
  modify fun s => { s with held := ns ++ before }
  let a ← part
  modify fun s => { s with held := before }
  tidy
  return a

/-! ## Telling listeners -/

/-- Removes elements one after the other. -/
def removeAll (t : Tree) : List NodeId → Except TreeError Tree
  | [] => .ok t
  | n :: ns => do removeAll (← t.remove n) ns

/-- What a listener to parsing does to the document. -/
def retouch (t : Tree) (s : Spy) : Except TreeError Tree := do
  let t ←
    match s.retouch.append with
    | some name => do
      let body ← t.body
      pure (t.modifyAttributes body (Markup.Attributes.append name s.label))
    | none => pure t
  match s.retouch.remove with
  | some name => do
    let root ← t.root
    removeAll t (← t.descendants root name)
  | none => return t

/-- Tells a listener of an event. -/
def hear (place : Nat) (l : Listener) (e : Event) : Run φ Unit :=
  match l with
  | .silent => pure ()
  | .spy s => do
    if e.channel = .parsing then
      match retouch (← get).tree s with
      | .ok t => change fun _ => t
      | .error cause => throw (.listener "spy" cause.message)
    log (.heard s.label e)
    modify fun st => { st with heard := (place, e) :: st.heard }
    let st ← get
    let mine := (st.heard.filterMap fun (p, e) => if p = place then some e else none).reverse
    match (s.objection mine).or (s.recollection st.world.events) with
    | some message => throw (.listener s.label message)
    | none => pure ()

/-- Tells all listeners of its channel of an event, in the order in which they were registered. -/
def tell (bus : Bus) (e : Event) : Run φ Unit := (bus.on e.channel).forM fun (i, l) => hear i l e

/-! ## Recording outcomes -/

/-- Records a passed assertion. -/
def recordSuccess (env : Surroundings) (n : NodeId) : Run φ Unit := do
  note fun r => r.success n
  tell env.bus (.successReported (← spot n))

/-- Records a failed assertion. -/
def recordFailure (env : Surroundings) (n : NodeId) (expected actual : String) : Run φ Unit := do
  note fun r => r.failure n expected actual
  tell env.bus (.failureReported (← spot n) expected actual)

/-- Records an expression without value. -/
def recordException (env : Surroundings) (n : NodeId) (expression : String)
    (error : EvaluationError) :
    Run φ Unit := do
  note fun r => r.exception n expression error
  tell env.bus (.exceptionCaught (← spot n) expression error)

/-- Records an item without row. -/
def recordMissingRow (env : Surroundings) (row : NodeId) (expected : String) : Run φ Unit := do
  note fun r => r.missingRow row expected
  tell env.bus (.missingRow (← spot row) expected)

/-- Records a row without item. -/
def recordSurplusRow (env : Surroundings) (row : NodeId) (actual : String) : Run φ Unit := do
  note fun r => r.surplusRow row actual
  tell env.bus (.surplusRow (← spot row) actual)

/-! ## Evaluating -/

/-- Binds a variable. -/
def bindVariable (name : String) (v : Value) : Run φ Unit :=
  modify fun s => { s with scope := { s.scope with bindings := s.scope.bindings.put name v } }

/-- Binds the text and the link of an element. -/
def bindElement (n : NodeId) : Run φ Unit := do
  bindVariable "TEXT" (.string (Text.normal (← look fun t => t.text n)))
  bindVariable "HREF" ((← look fun t => t.attribute? n "href").elim .null .string)

/-- Evaluates an expression text in the scope of the run. -/
def evaluate [Fixture φ] (source : String) : Run φ (Except EvaluationError Value) := do
  let (answer, scope) := (← get).scope.evaluate source
  modify fun s => { s with scope := scope }
  return answer

/-- Gives a value to what an expression text names. -/
def assign [Fixture φ] (source : String) (v : Value) : Run φ (Except EvaluationError Unit) := do
  let (answer, scope) := (← get).scope.assign source v
  modify fun s => { s with scope := scope }
  return answer

/-- Evaluates an expression for an element; an expression without value is recorded there. -/
def evaluateAt [Fixture φ] (env : Surroundings) (n : NodeId) (source : String) :
    Run φ (Option Value) := do
  bindElement n
  match ← evaluate source with
  | .ok v => return some v
  | .error e => do
    recordException env n source e
    return none

end Run
end LiveSpec
