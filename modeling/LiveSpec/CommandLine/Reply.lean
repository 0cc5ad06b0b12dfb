import LiveSpec.Config.Text
import LiveSpec.Engine
import LiveSpec.Fixture.Loading
import LiveSpec.CommandLine.Arguments
import LiveSpec.Json.Indented
import LiveSpec.Outcome.Report
import LiveSpec.Store.Source

/-!
# What the program does

A request is answered with an exit code and two texts, and it can change files. The code is 0 if all
is well, 1 if a specification does not succeed, and 2 if there was no result.

A specification lies in a directory, which is the root of all resources that it can link to. Its
data lie in a file beside it that differs in the extension only; without such a file there are no
data.
-/

namespace LiveSpec.CommandLine

/-- What the program leaves behind beside files. -/
structure Reply where
  code : Nat
  stdout : String
  stderr : String
deriving DecidableEq, Repr

/-- Why a task has no result. -/
inductive Failure where
  | argument (message : String)
  | configuration (message : String)
  /-- An error of the engine. -/
  | engine (e : Error)
deriving DecidableEq, Repr

/-- The wording of a failure. -/
def Failure.message : Failure → String
  | .argument message => "Invalid argument: " ++ message
  | .configuration message => "Configuration error: " ++ message
  | .engine e => e.message

/-- The files that the program sees: a tree, and the place in it that relative paths start from. -/
structure Workplace where
  tree : FileTree
  place : List String

namespace Workplace

/-- Reads a file. -/
def read (w : Workplace) (path : String) : Except FileFault String := w.tree.read w.place path

/-- Says whether there is a file. -/
def isFile (w : Workplace) (path : String) : Bool := w.tree.isFile w.place path

/-- The documents below a directory. -/
def documents (w : Workplace) (directory : String) : DirectorySource := ⟨w.tree, w.place, directory⟩

end Workplace

/-- The directory of a specification, and its resource there. -/
def locate (w : Workplace) (spec : String) : Except Failure (String × Resource) :=
  if w.isFile spec then .ok (FilePath.directory spec, .ofPath (FilePath.fileName spec))
  else .error (.argument ("specification not found: " ++ spec))

/-- The extensions of files with data, the preferred one first. -/
def dataExtensions : List String := ["yaml", "yml", "json"]

/-- The fixture of a specification: the data beside it, or none under its name. -/
def fixtureFor (w : Workplace) (spec : String) : Except Error StockFixture :=
  match (dataExtensions.map (FilePath.withExtension spec)).find? w.isFile with
  | some path => StockFixture.ofFile path (w.read path)
  | none => .ok (.data (FilePath.stem spec) [])

/-- The name under which a specification asks for another one. -/
def runnerName : String := "concordant"

/-- Takes nested documents and their fixtures from a directory. -/
def runner (w : Workplace) (directory : String) : Runner StockFixture where
  read := (w.documents directory).read
  fixture request :=
    (fixtureFor w (DirectoryTarget.pathFor directory request.resource)).mapError fun e =>
      .fixture request.resource e.message

/-! ## Reports -/

/-- Says whether a report is decorated. What is not written to a terminal is so only on demand. -/
def Decoration.applies (d : Decoration) : Bool := d = .always

/-- The lines of a report for one document. -/
def summaryText (decoration : Decoration) (o : Output) : String :=
  let text := String.ofList (Text.trimRight (o.summary.text o.tree).toList)
  let word := if o.summary.isSuccess then "PASSED" else "FAILED"
  (if decoration.applies then word ++ " " ++ text else text) ++ "\n"

/-- The report as text: nested documents first, then where the result lies. If it is to be quiet,
only what does not succeed is reported. -/
def reportText (r : Request) (path : String) (outputs : List Output) : String :=
  let shown := outputs.filter fun o => !(r.isQuiet && o.summary.isSuccess)
  let mark := if r.decoration.applies then "→" else "OUT"
  String.join (shown.map (summaryText r.decoration)) ++ if r.isQuiet then "" else
    mark ++ " " ++ path ++ "\n"

/-- The report as JSON. -/
def reportJson (time path : String) (output : Output) (nested : List Output) : String :=
  let summary (o : Output) : Value := (o.summary.report o.tree).toValue
  let report : Value := .object [("generated_at", .string time), ("output", .string path),
    ("summary", summary output), ("nested", .array (nested.map summary))]
  Json.indented 0 report ++ "\n"

/-! ## Tasks -/

/-- Writes the results of all runs, in order. -/
def writeAll : List Output → ExceptT Error (StateM DirectoryTarget) Unit
  | [] => return
  | o :: os => do
    o.writeTo
    writeAll os

/-- The result of a task: its text, and whether all specifications succeed. The tree of files is
changed even if the task fails. -/
abbrev Result := Except Failure (String × Bool) × FileTree

/-- Runs a specification up to the point where results are written: its output and those of nested
runs. -/
def process (w : Workplace) (c : Config) (spec : String) (data? : Option String) :
    Except Failure (Output × List Output) := do
  let (directory, resource) ← locate w spec
  let fixture ← (match data? with
    | some path => StockFixture.ofFile path (w.read path)
    | none => fixtureFor w spec).mapError Failure.engine
  let engine ← (Engine.build c Catalog.standard [] [(runnerName, runner w directory)]).mapError
      Failure.engine
  let html ← ((w.documents directory).read resource).mapError Failure.engine
  let (result, _, world) := engine.process fixture html resource .empty
  return (← result.mapError Failure.engine, world.outputs)

/-- Runs a specification and writes its results. -/
def runSpec (w : Workplace) (c : Config) (r : Request) (time spec : String)
    (data? output? : Option String) (format : Format) : Result :=
  match process w c spec data? with
  | .error e => (.error e, w.tree)
  | .ok (output, nested) =>
    let directory := output?.getD c.outputDir
    let (written, target) := (writeAll (output :: nested)).run ⟨w.tree, w.place, directory, 0⟩
    let path := DirectoryTarget.pathFor directory output.resource
    let text :=
      match format with
      | .text => reportText r path (nested ++ [output])
      | .json => reportJson time path output nested
    ((written.map fun _ => (text, output.summary.isSuccess)).mapError .engine, target.tree)

/-- Lists the commands of a specification. -/
def checkSpec (w : Workplace) (c : Config) (spec : String) : Except Failure String := do
  let (directory, resource) ← locate w spec
  let html ← ((w.documents directory).read resource).mapError Failure.engine
  let engine : Engine StockFixture ← (Engine.build c Catalog.standard [] []).mapError Failure.engine
  let (graph, tree) ← (engine.check html).mapError Failure.engine
  return resource.path ++ ": " ++ toString graph.size ++ " command(s)\n" ++ graph.listing tree

/-- The configuration of a request. -/
def configOf (w : Workplace) (config? : Option String) : Except Failure Config :=
  match config? with
  | none => .ok .standard
  | some path =>
    let config := (w.read path).mapError Error.ofFile >>= Config.read
    config.mapError fun e => .configuration (path ++ ": " ++ e.message)

/-- Answers a request. The time is shown in reports. -/
def Request.answer (r : Request) (w : Workplace) (time : String) : Result :=
  let passed (result : Except Failure String) : Result :=
    (result.map fun text => (text, true), w.tree)
  match configOf w r.config? with
  | .error e => (.error e, w.tree)
  | .ok c =>
    match r.task with
    | .run spec data? output? format => runSpec w c r time spec data? output? format
    | .check spec => passed (checkSpec w c spec)
    | .config showsDefaults => passed (.ok (if showsDefaults then Config.standard.text else c.text))

/-- The version of the program. -/
def versionText : String := "0.4.0"

/-- How the program is used. -/
def usageText : String := "Usage: " ++ programName ++ " [OPTIONS] <COMMAND>

Commands:
  run     Run a specification and write the annotated document
  check   Build the command call tree without running anything
  config  Show the effective engine configuration
  help    Print this message

Options:
  -v, --verbose          Say more
  -q, --quiet            Say nothing of what succeeds
      --color <COLOR>    auto, always or never
  -c, --config <CONFIG>  Engine configuration file (YAML)
  -h, --help             Print help
  -V, --version          Print version
"

/-- Answers arguments that are no request. -/
def Refusal.reply : Refusal → Reply
  | .misuse => ⟨2, "", "error: " ++ usageText⟩
  | .help => ⟨0, usageText, ""⟩
  | .version program => ⟨0, program ++ " " ++ versionText ++ "\n", ""⟩

/-- Answers the arguments of the program, and changes files. -/
def answer (environment? : Option String) (args : List String) (w : Workplace) (time : String) :
    Reply × FileTree :=
  match Request.read environment? args with
  | .error refusal => (refusal.reply, w.tree)
  | .ok request =>
    match request.answer w time with
    | (.ok (text, isSuccess), tree) => (⟨if isSuccess then 0 else 1, text, ""⟩, tree)
    | (.error e, tree) => (⟨2, "", "Error: " ++ e.message ++ "\n"⟩, tree)

end LiveSpec.CommandLine
