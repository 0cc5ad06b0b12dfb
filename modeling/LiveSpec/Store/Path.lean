import LiveSpec.Text.Split

/-!
# Paths of files

A path is kept as it is written, because it is shown as it is written. Its parts are the names in
it; empty parts and `.` name the directory that the path has come to so far.
-/

namespace LiveSpec.FilePath

/-- Says whether a path starts at the root of all files. -/
def isAbsolute (path : String) : Bool := path.startsWith "/"

/-- The names of a path, with `..` for one level up. -/
def parts (path : String) : List String :=
  ((Text.cuts (· == '/') path.toList).map String.ofList).filter fun s => s != "" && s != "."

/-- A path below a directory. -/
def join (directory path : String) : String :=
  if directory = "" || directory.endsWith "/" then directory ++ path else directory ++ "/" ++ path

/-- A path taken apart before its last name. -/
def splitLast (path : String) : String × String :=
  let tail := (path.toList.reverse.takeWhile (· != '/')).reverse
  (.ofList (path.toList.take (path.length - tail.length)), .ofList tail)

/-- The last name of a path. -/
def fileName (path : String) : String := (splitLast path).2

/-- The directory that the last name of a path lies in. -/
def directory (path : String) : String :=
  if (splitLast path).1 = "" then "." else (splitLast path).1

/-- A file name taken apart at its last point. A point at its start does not count. -/
def splitName (name : String) : String × Option String :=
  let tail := (name.toList.reverse.takeWhile (· != '.')).reverse
  let before := name.toList.take (name.length - tail.length - 1)
  if before.isEmpty || name = ".." then (name, none) else (.ofList before, some (.ofList tail))

/-- The last name of a path without its extension. -/
def stem (path : String) : String := (splitName (fileName path)).1

/-- The extension of the last name of a path. -/
def extension? (path : String) : Option String := (splitName (fileName path)).2

/-- A path with another extension. -/
def withExtension (path extension : String) : String :=
  (splitLast path).1 ++ stem path ++ "." ++ extension

end LiveSpec.FilePath
