import LiveSpec.Expr.Reader
import LiveSpec.Fixture

/-!
# Evaluating expressions

Expressions are evaluated in a scope: the fixture that answers, and the variables bound so far.
Arguments come before the call that takes them, a target before the key that picks from it; the
first part without a value ends the evaluation.

Evaluating an expression changes no variable, except for an assignment that succeeds.
-/

namespace LiveSpec

/-- What expressions are evaluated in. -/
structure Scope (φ : Type) where
  fixture : φ
  bindings : Entries Value

namespace Scope

variable {φ : Type} [Fixture φ]

/-- A named part of a value: a field of an object, the number of items of an array, the number of
characters of a string. -/
def fieldOf? (v : Value) (name : String) : Option Value :=
  match v with
  | .object _ => v.field? name
  | .array items => if name = "length" ∨ name = "size" then some (.int items.length) else none
  | .string s => if name = "length" then some (.int s.length) else none
  | _ => none

/-- The part of a value that another one picks: an item of an array by its place, a field of an
object by its name. -/
def pick? (v key : Value) : Option Value :=
  match v, key with
  | .array items, .int i => if i < 0 then none else items[i.toNat]?
  | .object _, .string name => v.field? name
  | _, _ => none

mutual
/-- The value of an expression, and the fixture after it. -/
def value (source : String) (bindings : Entries Value) (f : φ) :
    Expr → Except EvaluationError Value × φ
  | .literal v => (.ok v, f)
  | .variable name =>
    match bindings.find? name with
    | some v => (.ok v, f)
    | none => (.error (.targetNotFound source ("#" ++ name)), f)
  | .property name => ((Fixture.property f name).mapError (.ofFixture source), f)
  | .call method args =>
    match values source bindings f args with
    | (.error e, f) => (.error e, f)
    | (.ok vs, f) =>
      let (answer, f) := Fixture.call f method vs
      (answer.mapError (.ofFixture source), f)
  | .field target name =>
    match value source bindings f target with
    | (.error e, f) => (.error e, f)
    | (.ok v, f) =>
      match fieldOf? v name with
      | some part => (.ok part, f)
      | none => (.error (.targetNotFound source name), f)
  | .index target key =>
    match value source bindings f target with
    | (.error e, f) => (.error e, f)
    | (.ok v, f) =>
      match value source bindings f key with
      | (.error e, f) => (.error e, f)
      | (.ok k, f) =>
        match pick? v k with
        | some part => (.ok part, f)
        | none => (.error (.targetNotFound source ("[" ++ k.describe ++ "]")), f)
/-- The values of several expressions, from left to right, and the fixture after them. -/
def values (source : String) (bindings : Entries Value) (f : φ) :
    List Expr → Except EvaluationError (List Value) × φ
  | [] => (.ok [], f)
  | e :: es =>
    match value source bindings f e with
    | (.error err, f) => (.error err, f)
    | (.ok v, f) =>
      match values source bindings f es with
      | (.error err, f) => (.error err, f)
      | (.ok vs, f) => (.ok (v :: vs), f)
end

/-- Binds a variable. -/
def bind (s : Scope φ) (name : String) (v : Value) : Scope φ :=
  { s with bindings := s.bindings.put name v }

/-- Evaluates an expression text. An assignment binds its variable and has the value it binds. -/
def evaluate (s : Scope φ) (source : String) : Except EvaluationError Value × Scope φ :=
  match Statement.read source with
  | .error fault => (.error (.syntaxFault source fault.message), s)
  | .ok (.eval e) =>
    let (v, f) := value source s.bindings s.fixture e
    (v, { s with fixture := f })
  | .ok (.assign name e) =>
    match value source s.bindings s.fixture e with
    | (.error err, f) => (.error err, { s with fixture := f })
    | (.ok v, f) => (.ok v, bind { s with fixture := f } name v)

/-- Gives a value to what an expression text names: a variable or a property, nothing else. -/
def assign (s : Scope φ) (source : String) (v : Value) : Except EvaluationError Unit × Scope φ :=
  match Statement.read source with
  | .error fault => (.error (.syntaxFault source fault.message), s)
  | .ok (.eval (.variable name)) => (.ok (), s.bind name v)
  | .ok (.eval (.property name)) =>
    let (answer, f) := Fixture.setProperty s.fixture name v
    (answer.mapError (.ofFixture source), { s with fixture := f })
  | .ok _ => (.error (.syntaxFault source "only '#variable' or a property name can be set"), s)

/-- What can be said of an expression in a scope: the fixture, and the names that are bound. -/
def describe (s : Scope φ) (source : String) : String :=
  let bound := s.bindings.names.map fun name => "#" ++ name
  "'" ++ source ++ "' on fixture " ++ Fixture.name s.fixture ++ " (bound: "
    ++ (if bound.isEmpty then "none" else ", ".intercalate bound) ++ ")"

end Scope
end LiveSpec
