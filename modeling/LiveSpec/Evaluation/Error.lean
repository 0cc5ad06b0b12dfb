import LiveSpec.Value
import LiveSpec.Text.Blank

/-!
# Why an expression has no value

A fixture answers a request with a value or with an error of its own (`FixtureError`). Evaluating an
expression can fail for that reason or for one that lies in the expression; an `EvaluationError`
says which expression it was. Such an error concerns one command only.
-/

namespace LiveSpec

/-- Why a fixture did not answer. -/
inductive FixtureError where
  | memberNotFound (member : String)
  /-- The member ran and failed; the frames say where, the innermost first. -/
  | failed (message : String) (frames : List String)
deriving DecidableEq, Repr, Inhabited

namespace FixtureError

/-- The wording of a fixture's error. -/
def message : FixtureError → String
  | .memberNotFound member => "no member named '" ++ member ++ "'"
  | .failed message _ => message

/-- Adds the frame around a failure. -/
def withFrame (frame : String) : FixtureError → FixtureError
  | .failed message frames => .failed message (frames ++ [frame])
  | e => e

end FixtureError

/-- Why an expression has no value. -/
inductive EvaluationError where
  /-- The text is no expression. -/
  | syntaxFault (expression message : String)
  /-- A variable, a member or a part of a value that does not exist. -/
  | targetNotFound (expression target : String)
  /-- A value of another kind than is needed; the last field tells kind and text of the value. -/
  | typeMismatch (expression expected actual : String)
  /-- The fixture failed. -/
  | thrown (expression message : String) (frames : List String)
deriving DecidableEq, Repr, Inhabited

namespace EvaluationError

/-- The wording of an evaluation error. -/
def message : EvaluationError → String
  | .syntaxFault expression message => "syntax error in '" ++ expression ++ "': " ++ message
  | .targetNotFound expression target =>
    "'" ++ target ++ "' not found while evaluating '" ++ expression ++ "'"
  | .typeMismatch expression expected actual =>
    "expected " ++ expected ++ " from '" ++ expression ++ "' but got " ++ actual
  | .thrown _ message _ => message

/-- The name of the kind of an evaluation error. -/
def kind : EvaluationError → String
  | .syntaxFault _ _ => "ExpressionSyntaxError"
  | .targetNotFound _ _ => "TargetNotFoundError"
  | .typeMismatch _ _ _ => "TypeMismatchError"
  | .thrown _ _ _ => "EvaluationException"

/-- The expression that has no value. -/
def expression : EvaluationError → String
  | .syntaxFault e _ | .targetNotFound e _ | .typeMismatch e _ _ | .thrown e _ _ => e

/-- The frames of a failure of the fixture, the innermost first. -/
def frames : EvaluationError → List String
  | .thrown _ _ frames => frames
  | _ => []

/-- A value of another kind than is needed. -/
def mismatch (expression expected : String) (actual : Value) : EvaluationError :=
  .typeMismatch expression expected (actual.kind ++ " " ++ actual.describe)

/-- The error of a fixture, met while an expression was evaluated. -/
def ofFixture (expression : String) : FixtureError → EvaluationError
  | .memberNotFound member => .targetNotFound expression member
  | .failed message frames => .thrown expression message frames

/-- Says whether what does not exist is the whole expression, not a part of it. -/
def isAbsent : EvaluationError → Bool
  | .targetNotFound expression target => Text.trimmed expression == target
  | _ => false

end EvaluationError
end LiveSpec
