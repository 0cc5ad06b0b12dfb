import LiveSpec.Command.Basic
import LiveSpec.Error

/-!
# The registry of commands

A key belongs to a command, or to a modifier: a name that commands read and that is not run itself.
No key is registered twice. The namespaces are kept in the order in which they were first used.
-/

namespace LiveSpec

/-- The commands and modifiers by key, and the namespaces in use. -/
structure Registry where
  commands : List (CommandKey × Command)
  modifiers : List CommandKey
  namespaces : List String
deriving Inhabited

namespace Registry

/-- The registry without entries. -/
def empty : Registry := ⟨[], [], []⟩

/-- The command of a key. -/
def lookup? (r : Registry) (k : CommandKey) : Option Command := r.commands.lookup k

/-- Says whether a key belongs to a modifier. -/
def isModifier (r : Registry) (k : CommandKey) : Bool := r.modifiers.contains k

/-- Says whether a namespace is in use. -/
def hasNamespace (r : Registry) (ns : String) : Bool := r.namespaces.contains ns

/-- The number of commands. -/
def size (r : Registry) : Nat := r.commands.length

/-- Takes a key into use, unless it is taken. -/
def claim (r : Registry) (k : CommandKey) : Except Error Registry :=
  if (r.lookup? k).isSome || r.isModifier k then .error (.duplicateCommand k.ns k.name)
  else if r.hasNamespace k.ns then .ok r
  else .ok { r with namespaces := r.namespaces ++ [k.ns] }

/-- Registers a command. -/
def register (r : Registry) (ns name : String) (c : Command) : Except Error Registry := do
  let r ← r.claim (.of ns name)
  return { r with commands := r.commands ++ [(.of ns name, c)] }

/-- Registers a modifier. -/
def registerModifier (r : Registry) (ns name : String) : Except Error Registry := do
  let r ← r.claim (.of ns name)
  return { r with modifiers := r.modifiers ++ [.of ns name] }

end Registry
end LiveSpec
