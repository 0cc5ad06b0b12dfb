import LiveSpec.Value

/-!
# The expression language

An expression asks a fixture for a value: literals, variables (`#name`), the fixture's properties
and methods, and steps into what they gave. A statement is an expression, or one whose value a
variable takes.
-/

namespace LiveSpec

/-- An expression. -/
inductive Expr where
  | literal (v : Value)
  /-- A variable, written with `#` before its name. -/
  | variable (name : String)
  /-- A property of the fixture. -/
  | property (name : String)
  /-- A call of one of the fixture's methods. -/
  | call (method : String) (args : List Expr)
  /-- A named part of a value. -/
  | field (target : Expr) (name : String)
  /-- A part of a value that another value picks. -/
  | index (target : Expr) (key : Expr)
deriving Inhabited

/-- What an expression text stands for. -/
inductive Statement where
  /-- The value of the expression becomes that of the variable. -/
  | assign (name : String) (value : Expr)
  | eval (e : Expr)
deriving Inhabited

end LiveSpec
