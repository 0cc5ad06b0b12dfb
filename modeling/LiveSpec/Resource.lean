import LiveSpec.Text.Split

/-!
# Resources: where specifications and assets live

A resource is an absolute path of segments that is independent of where it is stored. Reading a path
removes what a file system would have to resolve: an empty segment and `.` mean the same directory,
`..` goes up one level, and at the root it stays there. So a resource never leads out of its root.

`resolve` follows a link in a document, `linkTo` writes one.
-/

namespace LiveSpec

/-- An absolute path, as the list of its segments; the root has none. -/
structure Resource where
  segments : List String
deriving DecidableEq, Repr, Inhabited

namespace Resource

/-- Walks one step of a path: nothing and `.` stay, `..` goes up, a name goes down. -/
def step (at_ : List String) (segment : String) : List String :=
  if segment = "" ∨ segment = "." then at_
  else if segment = ".." then at_.dropLast
  else at_ ++ [segment]

/-- The steps that a path spells out. -/
def steps (path : String) : List String :=
  (Text.cuts (· == '/') path.toList).map String.ofList

/-- Walks all the steps of a path, from a directory. -/
def walk (start : List String) (path : String) : List String :=
  (steps path).foldl step start

/-- The resource that a path names; a relative path starts at the root. -/
def ofPath (path : String) : Resource := ⟨walk [] path⟩

/-- The resource without segments. -/
def root : Resource := ⟨[]⟩

/-- The path of a resource, which starts with a slash. -/
def path (r : Resource) : String := "/" ++ "/".intercalate r.segments

/-- The last segment, empty for the root. -/
def name (r : Resource) : String := r.segments.getLastD ""

/-- Says whether a resource is the root. -/
def isRoot (r : Resource) : Bool := r.segments.isEmpty

/-- The resource one level up; the root has none. -/
def parent? (r : Resource) : Option Resource :=
  if r.segments.isEmpty then none else some ⟨r.segments.dropLast⟩

/-- The segments of the directory a resource lies in; the root lies in itself. -/
def directory (r : Resource) : List String := r.segments.dropLast

/-- The part of a link that names a resource: all before the first `#` or `?`. -/
def linkTarget (link : String) : String :=
  .ofList (link.toList.takeWhile fun c => c != '#' && c != '?')

/-- Follows a link found in the document `r`. A link that starts with a slash starts at the root,
any other in the directory of `r`. -/
def resolve (r : Resource) (link : String) : Resource :=
  let target := linkTarget link
  if target.startsWith "/" then ofPath target else ⟨walk r.directory target⟩

/-- How many segments two lists share at their start. -/
def sharedLength : List String → List String → Nat
  | a :: as, b :: bs => if a = b then sharedLength as bs + 1 else 0
  | _, _ => 0

/-- The link from the document `r` to `target`: up to the directory that both share, then down. The
last segment of the target is always spelled out, even where a directory has its name. -/
def linkTo (r target : Resource) : String :=
  let shared := min (sharedLength r.directory target.segments) (target.segments.length - 1)
  let up := List.replicate (r.directory.length - shared) ".."
  "/".intercalate (up ++ target.segments.drop shared)

/-- The order of resources: segment by segment, each by code point. -/
def precedes : List String → List String → Bool
  | [], [] => false
  | [], _ :: _ => true
  | _ :: _, [] => false
  | a :: as, b :: bs => a < b || (a == b && precedes as bs)

end Resource
end LiveSpec
