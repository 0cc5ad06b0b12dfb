import LiveSpec.Evaluation.Error
import LiveSpec.Extension
import LiveSpec.Numeral

/-!
# Fixtures

A fixture answers the requests of a specification: calls of methods, reading and writing of
properties. Any type can serve as one (`Fixture`). A request can change the fixture, so each answer
comes with the fixture after it.

`StockFixture` are the fixtures that need no program: a table of methods with prescribed behaviour,
plain data, and one that has no members at all.
-/

namespace LiveSpec

/-- What answers a specification. -/
class Fixture (φ : Type) where
  name : φ → String
  /-- Calls a method. -/
  call : φ → String → List Value → Except FixtureError Value × φ
  /-- Reads a property. -/
  property : φ → String → Except FixtureError Value
  /-- Writes a property. -/
  setProperty : φ → String → Value → Except FixtureError Unit × φ
  /-- The extensions that the fixture brings along. -/
  extensions : φ → List Extension

/-- What a method of a table does. -/
inductive Behaviour where
  | give (v : Value)
  | fail (message : String) (frames : List String)
  | missing (member : String)
  /-- Gives one of its arguments. -/
  | argument (i : Nat)
  /-- Gives all its arguments as an array. -/
  | arguments
  /-- Adds its arguments as signed 64-bit integers; what is none counts as zero, and the sum wraps.
  -/
  | sum
  /-- Joins the texts of its arguments. -/
  | join (separator : String)
  /-- Counts its calls from a number on. -/
  | counter (start : Int)
  /-- Says whether its first two arguments are the same. -/
  | equal
  /-- Behaves differently from call to call; the last behaviour stays. -/
  | sequence (bs : List Behaviour)
deriving Inhabited

namespace Behaviour

/-- A value as a signed 64-bit integer, zero if it is none. A string is read as a number. -/
def asInteger : Value → Int
  | .string s => (Numeral.signed? (Text.trim s.toList)).getD 0
  | .int n => if n < 0x8000000000000000 then n else 0
  | _ => 0

/-- A signed 64-bit sum that wraps. -/
def wrappingSum (ns : List Int) : Int := Int.bmod (ns.foldl (· + ·) 0) 0x10000000000000000

mutual
/-- The answer of a method that was called `calls` times before. -/
def answer (calls : Nat) (args : List Value) : Behaviour → Except FixtureError Value
  | .give v => .ok v
  | .fail message frames => .error (.failed message frames)
  | .missing member => .error (.memberNotFound member)
  | .argument i => .ok (args.getD i .null)
  | .arguments => .ok (.array args)
  | .sum => .ok (.int (wrappingSum (args.map asInteger)))
  | .join separator => .ok (.string (separator.intercalate (args.map Value.display)))
  | .counter start => .ok (.int (start + calls))
  | .equal => .ok (.bool (Value.same (args.getD 0 .null) (args.getD 1 .null)))
  | .sequence bs => answerOf calls args calls bs
/-- The answer of the `i`-th of several behaviours, or of the last one. -/
def answerOf (calls : Nat) (args : List Value) (i : Nat) :
    List Behaviour → Except FixtureError Value
  | [] => .ok .null
  | [b] => answer calls args b
  | b :: b' :: rest =>
    match i with
    | 0 => answer calls args b
    | i + 1 => answerOf calls args i (b' :: rest)
end

end Behaviour

/-- The fixtures that need no program. -/
inductive StockFixture where
  /-- Methods with their number of calls so far, properties, and extensions. -/
  | table (name : String) (methods : Entries (Behaviour × Nat)) (properties : Entries Value)
    (extensions : List Extension)
  | data (name : String) (properties : Entries Value)
  | bare (name : String)

namespace StockFixture

/-- The name of a fixture. -/
def name : StockFixture → String
  | .table name _ _ _ | .data name _ | .bare name => name

/-- Calls a method. A failure gets a frame that names fixture and method. -/
def call (f : StockFixture) (method : String) (args : List Value) :
    Except FixtureError Value × StockFixture :=
  match f with
  | .table name methods properties extensions =>
    match methods.find? method with
    | none => (.error (.memberNotFound method), f)
    | some (b, calls) =>
      ((b.answer calls args).mapError (FixtureError.withFrame (name ++ "." ++ method)),
        .table name (methods.put method (b, calls + 1)) properties extensions)
  | f => (.error (.memberNotFound method), f)

/-- Reads a property. -/
def property (f : StockFixture) (member : String) : Except FixtureError Value :=
  match f with
  | .table _ _ properties _ | .data _ properties =>
    match properties.find? member with
    | some v => .ok v
    | none => .error (.memberNotFound member)
  | .bare _ => .error (.memberNotFound member)

/-- Writes a property. -/
def setProperty (f : StockFixture) (member : String) (v : Value) :
    Except FixtureError Unit × StockFixture :=
  match f with
  | .table name methods properties extensions =>
    (.ok (), .table name methods (properties.put member v) extensions)
  | .data name properties => (.ok (), .data name (properties.put member v))
  | .bare name => (.error (.memberNotFound member), .bare name)

/-- The extensions that a fixture brings along. -/
def extensions : StockFixture → List Extension
  | .table _ _ _ extensions => extensions
  | _ => []

instance : Fixture StockFixture where
  name := name
  call := call
  property := property
  setProperty := setProperty
  extensions := extensions

/-- Serves the fields of an object; other values do not make a fixture. -/
def ofData (name : String) : Value → Except Error StockFixture
  | .object fields => .ok (.data name fields)
  | v => .error (.config ("fixture data must be a mapping, found " ++ v.kind))

end StockFixture
end LiveSpec
