import LiveSpec.Error
import LiveSpec.Resource
import LiveSpec.Store.Target

/-!
# Where documents come from

Documents are read by resource: from a list in memory, or below a directory.
-/

namespace LiveSpec

/-- Documents in memory. -/
abbrev MemorySource := List (Resource × String)

namespace MemorySource

/-- Adds a document, or replaces it. -/
def put (s : MemorySource) (r : Resource) (html : String) : MemorySource := (r, html) :: s

/-- Says whether there is a document. -/
def has (s : MemorySource) (r : Resource) : Bool := (s.lookup r).isSome

/-- Reads a document. -/
def read (s : MemorySource) (r : Resource) : Except Error String :=
  (s.lookup r).elim (.error (.io ("no document at " ++ r.path))) .ok

end MemorySource

/-- Documents below a directory. -/
structure DirectorySource where
  tree : FileTree
  /-- The place that the path of the directory starts from. -/
  start : List String
  directory : String

namespace DirectorySource

/-- Says whether there is a document. -/
def has (s : DirectorySource) (r : Resource) : Bool :=
  s.tree.isFile s.start (DirectoryTarget.pathFor s.directory r)

/-- Reads a document. -/
def read (s : DirectorySource) (r : Resource) : Except Error String :=
  (s.tree.read s.start (DirectoryTarget.pathFor s.directory r)).mapError .ofFile

end DirectorySource
end LiveSpec
