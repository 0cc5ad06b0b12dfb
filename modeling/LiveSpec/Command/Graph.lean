import LiveSpec.Command.Call
import LiveSpec.Command.Registry
import LiveSpec.Markup.Document

/-!
# The call graph of a document

An element carries a command if its own name, or that of one of its attributes, has a mark that
stands for a namespace in use and a command is registered under the name. A name there that is
registered as nothing is an error, and so is a second command on one element. Markup of other
namespaces is left alone.

The graph is built in the order of the document; the first error in that order is the one reported.
-/

namespace LiveSpec

open Markup (NodeId Tree)

namespace CallGraph

/-- A command found on an element: its key and its expression. -/
structure Found where
  key : CommandKey
  command : Command
  expression : String
deriving Inhabited

/-- The key that a name stands for at an element, with its command unless it is a modifier. Nothing
is found for a name without mark, a declaration, or a namespace that is not in use. -/
def resolve (t : Tree) (r : Registry) (n : NodeId) (name : String) :
    Except Error (Option (CommandKey × Option Command)) :=
  match Markup.splitName name with
  | (none, _) => .ok none
  | (some mark, localName) =>
    if Text.sameName mark "xmlns" then .ok none
    else
      match t.namespace? n mark with
      | none => .ok none
      | some ns =>
        if !r.hasNamespace ns then .ok none
        else
          let key := CommandKey.of ns localName
          if r.isModifier key then .ok (some (key, none))
          else
            match r.lookup? key with
            | some c => .ok (some (key, some c))
            | none => .error (.unknownCommand ns localName)

/-- The commands that the attributes of an element name, in order. -/
def ofAttributes (t : Tree) (r : Registry) (n : NodeId) :
    Markup.Attributes → Except Error (List Found)
  | [] => .ok []
  | (name, value) :: rest => do
    let found ← resolve t r n name
    let others ← ofAttributes t r n rest
    match found with
    | some (key, some c) => return ⟨key, c, Text.trimmed value⟩ :: others
    | _ => return others

/-- The command that the name of an element names. Its expression is an attribute of that name, else
the text of the element. -/
def ofName (t : Tree) (r : Registry) (n : NodeId) : Except Error (List Found) := do
  match ← resolve t r n (t.name n) with
  | some (key, some c) =>
    return [⟨key, c, (t.attribute? n "expression").getD (Text.normal (t.text n))⟩]
  | _ => return []

/-- The command of an element, if it carries one. -/
def commandOf (t : Tree) (r : Registry) (n : NodeId) : Except Error (Option Found) := do
  let found := (← ofName t r n) ++ (← ofAttributes t r n (t.attributes n))
  match found with
  | [] => return none
  | [f] => return some f
  | fs =>
    throw <| .config <| "element " ++ t.describe n ++ " carries more than one command: "
      ++ ", ".intercalate (fs.map fun f => f.key.name)

/-- The calls of an element and of all below it, at most `fuel` levels deep. Calls are numbered from
`next` on; the number after the last one is returned with them. -/
def collect (t : Tree) (r : Registry) : Nat → NodeId → Nat → Except Error (List Call × Nat)
  | 0, _, next => .ok ([], next)
  | fuel + 1, n, next => do
    let below (first : Nat) : Except Error (List Call × Nat) := do
      let children ← (t.childElements n).mapError Error.element
      children.foldlM (fun (calls, next) c => do
        let (more, next) ← collect t r fuel c next
        return (calls ++ more, next)) ([], first)
    match ← commandOf t r n with
    | none => below next
    | some f =>
      let (inside, after) ← below (next + 1)
      return ([.mk ⟨next, next, n, f.command, f.key, f.expression⟩ inside], after)

/-- The call graph of a document. -/
def ofTree (t : Tree) (r : Registry) : Except Error CallGraph := do
  let root ← t.root.mapError Error.element
  let (calls, _) ← collect t r (t.nodes.size + 1) root 0
  return ⟨calls⟩

end CallGraph
end LiveSpec
