import LiveSpec.Outcome.Basic

/-!
# Reporting a run

The report of a run as data and as text. An element is shown as it is when the report is written, so
that after painting it already has its class.
-/

namespace LiveSpec

open Markup (Tree)

/-- A failure as a report shows it. -/
structure FailureReport where
  element : String
  expected : String
  actual : String
  message : String
deriving DecidableEq, Repr

/-- An exception as a report shows it. -/
structure ExceptionReport where
  element : String
  expression : String
  kind : String
  message : String
  stack : List String
deriving DecidableEq, Repr

/-- The report of a run. -/
structure Report where
  resource : String
  success : Bool
  successes : Nat
  failures : List FailureReport
  exceptions : List ExceptionReport
deriving DecidableEq, Repr

namespace Summary

/-- The report of a finished run. -/
def report (s : Summary) (t : Tree) : Report where
  resource := s.resource.path
  success := s.isSuccess
  successes := s.record.successes
  failures := s.record.failures.map fun f => ⟨t.describe f.element, f.expected, f.actual, f.message⟩
  exceptions := s.record.exceptions.map fun e =>
    ⟨t.describe e.element, e.expression, e.error.kind, e.error.message, e.frames⟩

/-- The report of a finished run as text: the counts, then a line for each failure and for each
exception, with its frames. -/
def text (s : Summary) (t : Tree) : String :=
  let counts := "Successes: " ++ toString s.record.successes ++ ", Failures: "
    ++ toString s.record.failures.length ++ ", Exceptions: " ++ toString s.record.exceptions.length
  let failureLine (f : FailureDetail) : String :=
    "  FAILURE " ++ t.describe f.element ++ ": " ++ f.message ++ "\n"
  let exceptionLines (e : ExceptionDetail) : String :=
    "  EXCEPTION " ++ t.describe e.element ++ ": " ++ e.error.message ++ " (" ++
      e.error.kind ++ ")\n"
      ++ String.join (e.frames.map fun f => "      at " ++ f ++ "\n")
  s.resource.path ++ "\n" ++ counts ++ "\n" ++ String.join (s.record.failures.map failureLine)
    ++ String.join (s.record.exceptions.map exceptionLines)

end Summary

namespace Report

/-- The report as data, with the fields in the order in which they are read. -/
def toValue (r : Report) : Value :=
  .object [
    ("resource", .string r.resource),
    ("success", .bool r.success),
    ("successes", .int r.successes),
    ("failures", .array <| r.failures.map fun f => .object [
      ("element", .string f.element), ("expected", .string f.expected),
      ("actual", .string f.actual),
      ("message", .string f.message)]),
    ("exceptions", .array <| r.exceptions.map fun e => .object [
      ("element", .string e.element), ("expression", .string e.expression),
      ("kind", .string e.kind),
      ("message", .string e.message), ("stack", .array (e.stack.map .string))])]

end Report
end LiveSpec
