import LiveSpec.Digest
import LiveSpec.Run.State
import LiveSpec.Store.FileTree

/-!
# Where output goes

A target takes bytes under resources. What it has already need not be written again while it is
*fresh*: its content has the same digest, or it was written within the window of freshness. A target
has a clock. It moves on with every write, so that what was written is always some time ago, and can
move on between writes by any time.
-/

namespace LiveSpec

/-- The number of moments in a millisecond. -/
def momentsPerMillisecond : Nat := 1000

/-- Says whether what is stored need not be replaced by other bytes. -/
def Stored.isFresh (s : Stored) (now : Nat) (bytes : Bytes) (windowMs : Nat) : Bool :=
  Digest.ofBytes s.bytes == Digest.ofBytes bytes || now - s.written ≤ windowMs *
    momentsPerMillisecond

/-- What output is written to. -/
class Target (σ : Type) where
  write : Resource → Bytes → ExceptT Error (StateM σ) Unit
  /-- Says whether bytes need not be written, given for how many milliseconds they count as fresh.
  -/
  isFresh : σ → Resource → Bytes → Nat → Bool

/-- A target in memory. -/
structure MemoryTarget where
  files : List (Resource × Stored)
  /-- The number of writes so far. -/
  writes : Nat
  /-- The moment that it is. -/
  clock : Nat
deriving DecidableEq, Repr, Inhabited

namespace MemoryTarget

/-- The target before anything is written. -/
def empty : MemoryTarget := ⟨[], 0, 0⟩

/-- Puts a file where its resource belongs in the order of resources. -/
def insert (r : Resource) (s : Stored) : List (Resource × Stored) → List (Resource × Stored)
  | [] => [(r, s)]
  | (r', s') :: rest =>
    if r' = r then (r, s) :: rest
    else if Resource.precedes r.segments r'.segments then (r, s) :: (r', s') :: rest
    else (r', s') :: insert r s rest

/-- Writes a file. -/
def write (t : MemoryTarget) (r : Resource) (bytes : Bytes) : MemoryTarget :=
  ⟨insert r ⟨bytes, t.clock⟩ t.files, t.writes + 1, t.clock + 1⟩

/-- Lets a number of moments pass. -/
def wait (t : MemoryTarget) (moments : Nat) : MemoryTarget := { t with clock := t.clock + moments }

/-- The bytes under a resource. -/
def bytes? (t : MemoryTarget) (r : Resource) : Option Bytes := (t.files.lookup r).map Stored.bytes

/-- The text under a resource. -/
def read? (t : MemoryTarget) (r : Resource) : Option String := (t.bytes? r).map Bytes.text

/-- The resources with a file, in order. -/
def resources (t : MemoryTarget) : List Resource := t.files.map Prod.fst

instance : Target MemoryTarget where
  write r bytes := modify fun t => t.write r bytes
  isFresh t r bytes windowMs :=
    ((t.files.lookup r).map fun s => s.isFresh t.clock bytes windowMs).getD false

end MemoryTarget

/-- A target in a directory. -/
structure DirectoryTarget where
  tree : FileTree
  /-- The place that the path of the directory starts from. -/
  start : List String
  /-- The path of the directory, as it is written. -/
  directory : String
  /-- The moment that it is. -/
  clock : Nat

namespace DirectoryTarget

/-- The path of a resource below a directory. -/
def pathFor (directory : String) (r : Resource) : String :=
  FilePath.join directory ("/".intercalate r.segments)

/-- The names on the way to a resource. -/
def names (t : DirectoryTarget) (r : Resource) : List String :=
  FilePath.parts t.directory ++ r.segments

/-- The place that the names start from. -/
def origin (t : DirectoryTarget) : List String :=
  if FilePath.isAbsolute t.directory then [] else t.start

instance : Target DirectoryTarget where
  write r bytes := do
    let t ← get
    let (result, tree) := (FileTree.write t.origin (t.names r) ⟨bytes, t.clock⟩).run t.tree
    set { t with tree := tree, clock := t.clock + 1 }
    match result with
    | .ok () => return
    | .error fault => throw (.ofFile fault)
  isFresh t r bytes windowMs :=
    match t.tree.walk t.origin (t.names r) with
    | .ok place => ((t.tree.file? place).map fun s => s.isFresh t.clock bytes windowMs).getD false
    | .error _ => false

end DirectoryTarget

/-- Writes assets that are not fresh, in order. -/
def writeAssets {σ : Type} [Target σ] (windowMs : Nat) : List Asset → ExceptT Error (StateM σ) Unit
  | [] => return
  | a :: rest => do
    if !Target.isFresh (← get) a.resource a.bytes windowMs then Target.write a.resource a.bytes
    writeAssets windowMs rest

/-- Writes the document of a run, then the assets that are not fresh. -/
def Output.writeTo {σ : Type} [Target σ] (o : Output) : ExceptT Error (StateM σ) Unit := do
  Target.write o.resource o.html
  writeAssets o.freshWindow o.assets

end LiveSpec
