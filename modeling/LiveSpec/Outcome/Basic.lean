import LiveSpec.Evaluation.Error
import LiveSpec.Markup.Tree
import LiveSpec.Resource

/-!
# Outcomes, and the record of a run

A command that finds out something about its element records an outcome. The record of a run keeps
all outcomes in the order in which they came, and beside them the number of successes and the
details of failures and exceptions; a missing or surplus row counts as a failure.
-/

namespace LiveSpec

open Markup (NodeId)

/-- What was found out about an element. -/
inductive Outcome where
  | success
  | failure (expected actual : String)
  | exception (expression : String) (error : EvaluationError)
  /-- An item that no row shows; the element is the row added for it. -/
  | missingRow (expected : String)
  /-- A row that no item stands behind. -/
  | surplusRow (actual : String)
deriving DecidableEq, Repr, Inhabited

/-- An outcome with its element. -/
structure Recorded where
  element : NodeId
  outcome : Outcome
deriving DecidableEq, Repr, Inhabited

/-- The details of a failure. -/
structure FailureDetail where
  element : NodeId
  expected : String
  actual : String
  message : String
deriving DecidableEq, Repr, Inhabited

/-- The details of an exception. -/
structure ExceptionDetail where
  element : NodeId
  expression : String
  error : EvaluationError
  frames : List String
deriving DecidableEq, Repr, Inhabited

/-- What a run recorded so far. -/
structure Record where
  successes : Nat
  failures : List FailureDetail
  exceptions : List ExceptionDetail
  outcomes : List Recorded
deriving DecidableEq, Repr, Inhabited

namespace Record

/-- The record of a run that has found out nothing yet. -/
def empty : Record := ⟨0, [], [], []⟩

/-- Records a passed assertion. -/
def success (r : Record) (n : NodeId) : Record :=
  { r with successes := r.successes + 1, outcomes := r.outcomes ++ [⟨n, .success⟩] }

/-- Records a failed assertion. -/
def failure (r : Record) (n : NodeId) (expected actual : String) : Record :=
  { r with
    failures := r.failures ++
      [⟨n, expected, actual, "expected '" ++ expected ++ "' but was '" ++ actual ++ "'"⟩]
    outcomes := r.outcomes ++ [⟨n, .failure expected actual⟩] }

/-- Records an expression without value. -/
def exception (r : Record) (n : NodeId) (expression : String) (error : EvaluationError) : Record :=
  { r with
    exceptions := r.exceptions ++ [⟨n, expression, error, error.frames⟩]
    outcomes := r.outcomes ++ [⟨n, .exception expression error⟩] }

/-- Records an item without row. -/
def missingRow (r : Record) (n : NodeId) (expected : String) : Record :=
  { r with
    failures := r.failures ++ [⟨n, expected, "", "missing row '" ++ expected ++ "'"⟩]
    outcomes := r.outcomes ++ [⟨n, .missingRow expected⟩] }

/-- Records a row without item. -/
def surplusRow (r : Record) (n : NodeId) (actual : String) : Record :=
  { r with
    failures := r.failures ++ [⟨n, "", actual, "surplus row '" ++ actual ++ "'"⟩]
    outcomes := r.outcomes ++ [⟨n, .surplusRow actual⟩] }

end Record

/-- The record of a finished run and the document that it belongs to. -/
structure Summary where
  resource : Resource
  record : Record
deriving DecidableEq, Repr, Inhabited

namespace Summary

/-- Says whether there is a failure. -/
def hasFailures (s : Summary) : Bool := !s.record.failures.isEmpty

/-- Says whether there is an exception. -/
def hasExceptions (s : Summary) : Bool := !s.record.exceptions.isEmpty

/-- Says whether there is neither a failure nor an exception. -/
def isSuccess (s : Summary) : Bool := !s.hasFailures && !s.hasExceptions

end Summary

/-- The result of a run in one word. -/
inductive Verdict where
  | success
  | failure
  | exception
deriving DecidableEq, Repr, Inhabited

namespace Verdict

/-- The verdict of a finished run: exceptions weigh more than failures. -/
def ofSummary (s : Summary) : Verdict :=
  if s.hasExceptions then .exception else if s.hasFailures then .failure else .success

/-- The word for a verdict. -/
def word : Verdict → String
  | .success => "success"
  | .failure => "failure"
  | .exception => "exception"

/-- Reads a verdict, without regard to blanks around it and the case of ASCII letters. -/
def read? (s : String) : Option Verdict :=
  let w := Text.asciiLower (Text.trimmed s)
  if w = "success" then some .success
  else if w = "failure" then some .failure
  else if w = "exception" then some .exception
  else none

end Verdict
end LiveSpec
