import LiveSpec.Command.Basic
import LiveSpec.Markup.Tree

/-!
# Calls

A call is one occurrence of a command in a document. The calls of a document form a graph: inside a
call stand the calls of the nearest elements below its own that carry a command.

A call keeps the value that it finds in one phase for a later one in a slot of its own.
-/

namespace LiveSpec

open Markup (NodeId Tree)

/-- One occurrence of a command. -/
structure Occurrence where
  /-- The place in the order of the document. -/
  id : Nat
  /-- Where the call keeps its value. -/
  slot : Nat
  element : NodeId
  command : Command
  key : CommandKey
  expression : String
deriving DecidableEq, Repr, Inhabited

/-- A call and the calls inside it. -/
inductive Call where
  | mk (head : Occurrence) (inside : List Call)
deriving Inhabited

namespace Call

/-- The call without the calls inside it. -/
def head : Call → Occurrence
  | .mk o _ => o

/-- The calls directly inside a call. -/
def inside : Call → List Call
  | .mk _ cs => cs

mutual
/-- A call and all calls inside it, in the order of the document. -/
def walk : Call → List Occurrence
  | .mk o cs => o :: walkAll cs
/-- Calls and all calls inside them, in the order of the document. -/
def walkAll : List Call → List Occurrence
  | [] => []
  | c :: cs => walk c ++ walkAll cs
end

/-- The line of a call in a listing. -/
def line (t : Tree) (depth : Nat) (o : Occurrence) : String :=
  String.join (List.replicate depth "  ") ++ o.command.name ++ " <" ++ t.name o.element ++ ">"
    ++ (if o.expression = "" then "" else " \"" ++ o.expression ++ "\"") ++ "\n"

mutual
/-- The listing of a call, indented by depth. -/
def listing (t : Tree) (depth : Nat) : Call → String
  | .mk o cs => line t depth o ++ listingAll t (depth + 1) cs
/-- The listing of several calls. -/
def listingAll (t : Tree) (depth : Nat) : List Call → String
  | [] => ""
  | c :: cs => listing t depth c ++ listingAll t depth cs
end

end Call

/-- The calls of a document. -/
structure CallGraph where
  roots : List Call
deriving Inhabited

namespace CallGraph

/-- All calls in the order of the document. -/
def walk (g : CallGraph) : List Occurrence := Call.walkAll g.roots

/-- The number of calls. -/
def size (g : CallGraph) : Nat := g.walk.length

/-- Says whether a document has no commands. -/
def isEmpty (g : CallGraph) : Bool := g.roots.isEmpty

/-- The indented listing of all calls. -/
def listing (g : CallGraph) (t : Tree) : String := Call.listingAll t 0 g.roots

end CallGraph
end LiveSpec
