import LiveSpec.Error
import LiveSpec.Evaluation.Error
import LiveSpec.Resource

/-!
# Nested runs

A document can ask for another one to be run. The request says who asks, for what, and how deep the
nested run lies. If it has no verdict, `RunnerError` says why; all such reasons concern the asking
element only, except that a nested run which was ended by an error ends the asking run as well.
-/

namespace LiveSpec

/-- Where a run stands: its depth, and the fixture that asked for it unless it is the outermost. -/
structure Context where
  depth : Nat
  caller : Option String
deriving DecidableEq, Repr, Inhabited

/-- The outermost run. -/
def Context.outermost : Context := ⟨0, none⟩

/-- A request for a nested run. -/
structure RunRequest where
  /-- The name of the asking fixture. -/
  caller : String
  resource : Resource
  /-- The link as it is written. -/
  href : String
  depth : Nat
deriving DecidableEq, Repr, Inhabited

/-- Why a nested run has no verdict. -/
inductive RunnerError where
  | unknownRunner (name : String)
  | unknownFixture (resource : Resource)
  | fixture (resource : Resource) (message : String)
  | source (resource : Resource) (message : String)
  | depthExceeded (depth max : Nat)
  /-- The nested run was ended by an error. -/
  | aborted (cause : Error)
deriving DecidableEq, Repr, Inhabited

namespace RunnerError

/-- The wording of an error. -/
def message : RunnerError → String
  | .unknownRunner name => "no runner named '" ++ name ++ "'"
  | .unknownFixture resource => "no fixture for " ++ resource.path
  | .fixture resource message => "cannot load fixture for " ++ resource.path ++ ": " ++ message
  | .source resource message => "cannot read " ++ resource.path ++ ": " ++ message
  | .depthExceeded depth max =>
    "nesting depth " ++ toString depth ++ " exceeds the maximum of " ++ toString max
  | .aborted cause => cause.message

/-- The error as it is recorded at the asking element. -/
def toEvaluationError (expression : String) : RunnerError → EvaluationError
  | .unknownRunner name => .targetNotFound expression name
  | e => .thrown expression e.message []

end RunnerError
end LiveSpec
