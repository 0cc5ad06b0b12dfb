import LiveSpec.CommandLine.Reply
import Std.Time.Format

/-!
# The program

Files are read before a request is answered: all below the directory of the specification, since it
can link to any of them, and the two that can be named beside it. Then the request is answered
without touching a file, and what was changed is written.
-/

namespace LiveSpec.CommandLine

/-- The paths of the files below a directory. Directories that cannot be listed have none. -/
partial def filesBelow (path : String) : IO (List String) := do
  let root ← IO.currentDir
  let directory := root / path
  let entries ← try directory.readDir catch _ => pure #[]
  let nested ← entries.toList.mapM fun e => do
    let child := FilePath.join path e.fileName
    if ← (root / child).isDir then filesBelow child else return [child]
  return nested.flatten

/-- Adds the file at a path to a tree, if it can be read. -/
def load (place : List String) (t : FileTree) (path : String) : IO FileTree := do
  let content ← try some <$> IO.FS.readFile path catch _ => pure none
  match content, t.locate place path with
  | some text, .ok found => return t.put found ⟨text, 0⟩
  | _, _ => return t

/-- The directories on the way to a place, and the place itself. -/
def placesTo (place : List String) : List (List String) :=
  (List.range place.length).map fun i => place.take (i + 1)

/-- The files that a request can need. -/
def gather (place : List String) (r : Request) : IO FileTree := do
  let spec? : Option String :=
    match r.task with
    | .run spec _ _ _ | .check spec => some spec
    | .config _ => none
  let data? : Option String :=
    match r.task with
    | .run _ data? _ _ => data?
    | _ => none
  let below ← spec?.elim (pure []) fun spec => filesBelow (FilePath.directory spec)
  let paths := below ++ spec?.toList ++ data?.toList ++ r.config?.toList
  let directories := paths.flatMap fun path =>
    let names := FilePath.parts path
    let start := if FilePath.isAbsolute path then [] else place
    placesTo (start ++ names.dropLast)
  paths.foldlM (load place) ⟨[], (placesTo place ++ directories).eraseDups⟩

/-- Writes a file that was changed. -/
def store (place : List String) (s : Stored) : IO Unit := do
  IO.FS.createDirAll ("/" ++ "/".intercalate place.dropLast)
  IO.FS.writeFile ("/" ++ "/".intercalate place) s.text

/-- The time, as it stands in reports. -/
def timeText : IO String := do
  let now ← Std.Time.Timestamp.now
  return (Std.Time.DateTime.ofTimestamp now Std.Time.TimeZone.ZoneRules.UTC).toISO8601String

/-- Runs the program. -/
def runProgram (args : List String) : IO UInt32 := do
  let environment? ← IO.getEnv "CONCORDANT_CONFIG"
  let place := FilePath.parts (← IO.currentDir).toString
  let before ←
    match Request.read environment? args with
    | .ok request => gather place request
    | .error _ => pure FileTree.empty
  let (reply, after) := answer environment? args ⟨before, place⟩ (← timeText)
  for (path, s) in after.files do
    if before.file? path != some s then store path s
  IO.print reply.stdout
  IO.eprint reply.stderr
  return reply.code.toUInt32

end LiveSpec.CommandLine

/-- Runs the program. A file that cannot be written ends it. -/
def main (args : List String) : IO UInt32 := do
  try LiveSpec.CommandLine.runProgram args
  catch e =>
    IO.eprintln ("Error: I/O error: " ++ toString e)
    return 2
