import LiveSpec.Error
import LiveSpec.Store.Path
import LiveSpec.Text.Bytes

/-!
# A tree of files

Files and directories by place, which is the list of the names from the root on. A path is walked
from a place, name by name; each name but the last has to be that of a directory. A new directory is
made together with the ones it lies in, and those made before something went wrong stay.
-/

namespace LiveSpec

/-- What a file holds, and the moment at which it was written. -/
structure Stored where
  bytes : Bytes
  written : Nat
deriving DecidableEq, Repr, Inhabited

/-- What a file holds, as a text. -/
def Stored.text (s : Stored) : String := s.bytes.text

/-- Files and directories by place. The root is a directory without being listed. -/
structure FileTree where
  files : List (List String × Stored)
  directories : List (List String)
deriving DecidableEq, Repr, Inhabited

namespace FileTree

/-- The tree without files. -/
def empty : FileTree := ⟨[], []⟩

/-- The file at a place. -/
def file? (t : FileTree) (place : List String) : Option Stored := t.files.lookup place

/-- Says whether there is a directory at a place. -/
def isDirectory (t : FileTree) (place : List String) : Bool :=
  place.isEmpty || t.directories.contains place

/-- Takes one step of a path. -/
def enter (t : FileTree) (place : List String) (name : String) : Except FileFault (List String) :=
  if t.isDirectory place then
    if name = "" || name = "." then .ok place
    else if name = ".." then .ok place.dropLast
    else if name.utf8ByteSize > 255 then .error .nameTooLong
    else .ok (place ++ [name])
  else if (t.file? place).isSome then .error .notDirectory
  else .error .notFound

/-- Takes the steps of a path. There need not be anything at the end. -/
def walk (t : FileTree) (start : List String) (names : List String) :
    Except FileFault (List String) :=
  names.foldlM (t.enter ·) start

/-- Walks a path as it is written. -/
def locate (t : FileTree) (start : List String) (path : String) : Except FileFault (List String) :=
  if path = "" then .error .notFound
  else
    let names := (Text.cuts (· == '/') path.toList).map String.ofList
    t.walk (if FilePath.isAbsolute path then [] else start) names

/-- Reads the file at the end of a path. -/
def readBytes (t : FileTree) (start : List String) (path : String) : Except FileFault Bytes := do
  let place ← t.locate start path
  match t.file? place with
  | some stored => return stored.bytes
  | none => throw (if t.isDirectory place then .isDirectory else .notFound)

/-- Reads the file at the end of a path as a text, which it has to be. -/
def read (t : FileTree) (start : List String) (path : String) : Except FileFault String := do
  match (← t.readBytes start path).text? with
  | some text => return text
  | none => throw .noText

/-- Says whether there is a file at the end of a path. -/
def isFile (t : FileTree) (start : List String) (path : String) : Bool :=
  match t.readBytes start path with
  | .ok _ => true
  | .error _ => false

/-! ## Writing -/

/-- Changes to a tree that can fail. What was changed before it failed stays changed. -/
abbrev Change := ExceptT FileFault (StateM FileTree)

/-- Makes one directory. -/
def makeDirectory (start names : List String) : Change Unit := do
  let t ← get
  match t.walk start names with
  | .error fault => throw fault
  | .ok place =>
    if t.isDirectory place || (t.file? place).isSome then throw .taken
    set { t with directories := t.directories ++ [place] }

/-- Says whether the steps of a path lead to a directory. -/
def leadsToDirectory (t : FileTree) (start names : List String) : Bool :=
  match t.walk start names with
  | .ok place => t.isDirectory place
  | .error _ => false

/-- Makes a directory unless it is there, and those it lies in before. The names are those of its
path, the last one first. -/
def ensureDirectory (start : List String) : List String → Change Unit
  | [] => return
  | name :: above => do
    let names := (name :: above).reverse
    let attempt : Change Unit := do
      let settle (fault : FileFault) : Change Unit := do
        if !(← get).leadsToDirectory start names then throw fault
      tryCatch (makeDirectory start names) settle
    match (← get).walk start names with
    | .error .notFound => do
      ensureDirectory start above
      attempt
    | _ => attempt

/-- Puts a file at a place. -/
def put (t : FileTree) (place : List String) (s : Stored) : FileTree :=
  { t with files := t.files.filter (fun e => e.1 != place) ++ [(place, s)] }

/-- Writes a file and makes the directories that it lies in. -/
def write (start names : List String) (s : Stored) : Change Unit := do
  ensureDirectory start names.reverse.tail
  let t ← get
  match t.walk start names with
  | .error fault => throw fault
  | .ok place => if t.isDirectory place then throw .isDirectory else set (t.put place s)

/-- The tree with texts in files of given paths. -/
def ofFiles (start : List String) (files : List (String × String)) : FileTree :=
  let base : FileTree := ⟨[], (List.range start.length).map fun i => start.take (i + 1)⟩
  files.foldl (fun t (path, text) => ((write start (FilePath.parts path) ⟨text, 0⟩).run t).2) base

end FileTree
end LiveSpec
