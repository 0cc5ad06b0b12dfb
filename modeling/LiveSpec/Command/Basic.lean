import LiveSpec.Text.Case

/-!
# Commands

A command is what a piece of markup asks for. It is found under a key: a namespace and a name in
lower case. Every command passes through three phases; which of them do something depends on the
command.

Beside the commands that specifications are written with there are two for watching a run from
outside: `inert`, which does nothing, and `probe`, which logs each phase and can act in one of them.
-/

namespace LiveSpec

/-- The phases of a run: prepare, evaluate, compare. -/
inductive Phase where
  | setup
  | execute
  | verify
deriving DecidableEq, Repr, Inhabited

/-- The name of a phase. -/
def Phase.name : Phase → String
  | .setup => "setup"
  | .execute => "execute"
  | .verify => "verify"

/-- What a probe does beside logging. -/
inductive ProbeAct where
  | success
  | failure
  /-- Evaluates its expression, logs the value and keeps it. -/
  | evaluate
  /-- Takes its element out of the document. -/
  | remove
  /-- Runs the phase over the calls inside it. -/
  | drive
  /-- Runs the calls inside it through all phases, as those of one row. -/
  | rows
  /-- Logs what the evaluator says of its expression. -/
  | describe
deriving DecidableEq, Repr, Inhabited

/-- A command that watches a run. -/
structure Probe where
  name : String
  owns : Bool
  binds : Bool
  /-- The phase it acts in, and what it does then. -/
  act : Option (Phase × ProbeAct)
deriving DecidableEq, Repr, Inhabited

/-- A command. -/
inductive Command where
  /-- Compares the value of the expression with the text of the element. -/
  | assertEquals
  /-- Expects one of the two truth values. -/
  | assertBoolean (expected : Bool)
  /-- Replaces the content of the element by the value of the expression. -/
  | echo
  /-- Evaluates an expression for its effect. -/
  | execute
  /-- Gives the text of the element to a variable or property. -/
  | set
  /-- Runs the linked specification and compares its verdict. -/
  | run
  /-- Compares a sequence of values with the rows of a table. -/
  | verifyRows
  | inert
  | probe (p : Probe)
deriving DecidableEq, Repr, Inhabited

namespace Command

/-- The name of a command in listings. -/
def name : Command → String
  | .assertEquals => "assertEquals"
  | .assertBoolean true => "assertTrue"
  | .assertBoolean false => "assertFalse"
  | .echo => "echo"
  | .execute => "execute"
  | .set => "set"
  | .run => "run"
  | .verifyRows => "verifyRows"
  | .inert => "inert"
  | .probe p => p.name

/-- Says whether a command binds variables that the commands beside it read. -/
def binds : Command → Bool
  | .set => true
  | .probe p => p.binds
  | _ => false

/-- Says whether a command drives the calls inside it itself. -/
def owns (hasChildren : Bool) : Command → Bool
  | .execute => hasChildren
  | .verifyRows => true
  | .probe p => p.owns
  | _ => false

/-- Says whether a command is one that specifications are written with. -/
def isBuiltIn : Command → Bool
  | .inert | .probe _ => false
  | _ => true

end Command

/-- What a command is found under. -/
structure CommandKey where
  ns : String
  name : String
deriving DecidableEq, Repr, Inhabited

namespace CommandKey

/-- The key of a name in a namespace; the case of the name does not matter. -/
def of (ns name : String) : CommandKey := ⟨ns, Text.lowerCase name⟩

/-- The notation of a key: the namespace between braces, then the name. -/
def text (k : CommandKey) : String := "\x7b" ++ k.ns ++ "\x7d" ++ k.name

end CommandKey

/-- The namespace of the built-in commands. -/
def builtInNamespace : String := "urn:concordant:2024"

end LiveSpec
