import LiveSpec.Command.Graph
import LiveSpec.Config
import LiveSpec.Markup.Construction
import LiveSpec.Markup.Writer
import LiveSpec.Run.Protocol

/-!
# The engine

The engine runs documents. A document is read and shown to the listeners of parsing; style sheets
and scripts go into its head; the call graph is built and shown to the listeners of building; the
phases run; outcomes are painted; the finished document is shown once more and written.

A document that is run can ask for others. Their depth is bounded by the configuration, so all runs
end even if documents link to each other in a circle: `processWithin` goes by how many levels are
left.
-/

namespace LiveSpec

open Markup (Tree)

/-- Where nested runs take documents and fixtures from. -/
structure Runner (φ : Type) where
  read : Resource → Except Error String
  fixture : RunRequest → Except RunnerError φ

/-- An engine. -/
structure Engine (φ : Type) where
  config : Config
  extensions : List Extension
  runners : Entries (Runner φ)

namespace Engine

variable {φ : Type} [Fixture φ]

/-- Puts an engine together: the extensions that the configuration names come before the others.
Whatever they register twice is found here. -/
def build (config : Config) (catalog : Catalog) (extensions : List Extension)
    (runners : Entries (Runner φ)) :
    Except Error (Engine φ) := do
  let named ← catalog.resolve config.extensions
  let _ ← ExtensionSet.of (named ++ extensions)
  return ⟨config, named ++ extensions, runners⟩

/-- The call graph of a document that is not run, with the document. -/
def check (e : Engine φ) (html : String) : Except Error (CallGraph × Tree) := do
  let set ← ExtensionSet.of e.extensions
  let t := Tree.read html
  return (← CallGraph.ofTree t set.registry, t)

/-- Makes an element of the head. -/
def headElement (document : Resource) (t : Tree) : HeadEntry → Markup.NodeId × Tree
  | .linkedCss target =>
    let (n, t) := t.newElement "link"
    (n,
      ((t.setAttribute n "rel" "stylesheet").setAttribute n "type" "text/css").setAttribute n "href"
      (document.linkTo target))
  | .embeddedCss text =>
    let (n, t) := t.newElementWithText "style" text
    (n, t.setAttribute n "type" "text/css")
  | .linkedScript target =>
    let (n, t) := t.newElement "script"
    (n, (t.setAttribute n "type" "text/javascript").setAttribute n "src" (document.linkTo target))
  | .embeddedScript text =>
    let (n, t) := t.newElementWithText "script" text
    (n, t.setAttribute n "type" "text/javascript")

/-- Adds entries at the end of the head. -/
def addEntries (document : Resource) (head : Markup.NodeId) (t : Tree) :
    List HeadEntry → Except Markup.TreeError Tree
  | [] => .ok t
  | entry :: rest => do
    let (n, t) := headElement document t entry
    addEntries document head (← t.appendChild head n) rest

/-- Adds the style sheet of the engine, if it is wanted, and the entries of extensions to the head.
-/
def installHead (embedCss : Bool) (document : Resource) (entries : List HeadEntry) (t : Tree) :
    Except Markup.TreeError Tree := do
  let t ← if embedCss then Painting.embedCss t Painting.defaultCss else pure t
  let (head, t) ← t.head
  addEntries document head t entries

/-- Paints the outcomes of a run. -/
def paint : Run φ (List Diagnostic) := do
  let s ← get
  let (t, diagnostics) := Painting.paint s.tree s.record.outcomes
  Run.change fun _ => t
  return diagnostics

/-- A run over a document that has been read. -/
def pipeline (e : Engine φ) (set : ExtensionSet) (env : Surroundings) : Run φ Output := do
  Run.tell env.bus (.documentParsed env.resource.path)
  Run.attempt (installHead e.config.embedDefaultCss env.resource set.head)
  let graph ←
    match CallGraph.ofTree (← get).tree set.registry with
    | .ok g => pure g
    | .error e => throw e
  Run.tell env.bus (.graphBuilt env.resource.path (← get).tree graph)
  modify fun s => { s with held := graph.walk.map Occurrence.element, nextSlot := graph.size }
  Run.runGraph env graph
  let summary : Summary := ⟨env.resource, (← get).record⟩
  let diagnostics ← paint
  Run.tell env.bus (.documentBuilt env.resource.path)
  let t := (← get).tree
  return ⟨env.resource, t.html, summary, t, set.assets, diagnostics, e.config.freshWindowMs⟩

/-- The result of a run, the fixture after it, and the world after it. -/
abbrev Result (φ : Type) := Except Error Output × φ × World

/-- How a run runs the documents that it asks for. -/
abbrev Nested := String → RunRequest → StateM World (Except RunnerError Verdict)

/-- Runs a document, given how nested runs are run. -/
def processUsing (e : Engine φ) (nested : Nested) (context : Context) (fixture : φ) (html : String)
    (resource : Resource) (world : World) : Result φ :=
  match ExtensionSet.of (e.extensions ++ Fixture.extensions fixture) with
  | .error error => (.error error, fixture, world)
  | .ok set =>
    let env : Surroundings :=
      ⟨set.listeners, resource, Fixture.name fixture, context, e.config.maxNestingDepth, nested⟩
    let start : RunState φ :=
      ⟨Tree.read html, ⟨fixture, []⟩, .empty, [], 0, [], [], [], world⟩
    let (result, s) := (pipeline e set env).run start
    (result, s.scope.fixture, s.world)

/-- Runs the document of a request: reads it, asks for its fixture, and keeps the output of the run.
-/
def runRequest (runner : Runner φ) (process : Context → φ → String → Resource → World → Result φ)
    (request : RunRequest) : StateM World (Except RunnerError Verdict) := do
  match runner.read request.resource with
  | .error error => return .error (.source request.resource error.message)
  | .ok html => do
    modify fun w => { w with log := w.log ++ [.requested request] }
    match runner.fixture request with
    | .error error => return .error error
    | .ok fixture => do
      let (result, _, world) :=
        process ⟨request.depth, some request.caller⟩ fixture html request.resource (← get)
      set world
      match result with
      | .error error => return .error (.aborted error)
      | .ok output => do
        modify fun w => { w with outputs := w.outputs ++ [output] }
        return .ok (.ofSummary output.summary)

/-- Runs a document with at most `levels` levels of nested runs below it. -/
def processWithin (e : Engine φ) : Nat → Context → φ → String → Resource → World → Result φ
  | 0 => processUsing e fun _ request => return .error (.depthExceeded request.depth
    e.config.maxNestingDepth)
  | levels + 1 => processUsing e fun name request =>
    match e.runners.find? name with
    | none => return .error (.unknownRunner name)
    | some runner => runRequest runner (processWithin e levels) request

/-- Runs a document that stands somewhere in a nesting of runs. -/
def processIn (e : Engine φ) (context : Context) (fixture : φ) (html : String) (resource : Resource)
    (world : World) : Result φ :=
  processWithin e (e.config.maxNestingDepth - context.depth) context fixture html resource world

/-- Runs an outermost document. -/
def process (e : Engine φ) (fixture : φ) (html : String) (resource : Resource)
    (world : World) : Result φ :=
  processIn e .outermost fixture html resource world

end Engine
end LiveSpec
