import LiveSpec.Evaluation.Scope

/-!
# Watching a fixture

A watched fixture answers as the fixture in it does, and keeps account of what could change it: the
calls of its methods and the writes to its properties, in order. To read a property changes nothing
and is not noted.

An evaluation in a scope with a watched fixture tells what the evaluation asks of the fixture.
-/

namespace LiveSpec

/-- Something that is asked of a fixture and can change it. -/
inductive Request where
  | call (method : String) (args : List Value)
  | write (member : String) (v : Value)

/-- Says whether a method is called. -/
def Request.isCall : Request → Bool
  | .call _ _ => true
  | .write _ _ => false

/-- A fixture, with all that was asked of it. -/
structure Watched (φ : Type) where
  fixture : φ
  requests : List Request

variable {φ : Type}

namespace Watched

variable [Fixture φ]

/-- Calls a method and notes it. -/
def call (w : Watched φ) (method : String) (args : List Value) :
    Except FixtureError Value × Watched φ :=
  let (answer, f) := Fixture.call w.fixture method args
  (answer, ⟨f, w.requests ++ [.call method args]⟩)

/-- Writes a property and notes it. -/
def setProperty (w : Watched φ) (member : String) (v : Value) :
    Except FixtureError Unit × Watched φ :=
  let (answer, f) := Fixture.setProperty w.fixture member v
  (answer, ⟨f, w.requests ++ [.write member v]⟩)

instance : Fixture (Watched φ) where
  name w := Fixture.name w.fixture
  call := call
  property w := Fixture.property w.fixture
  setProperty := setProperty
  extensions w := Fixture.extensions w.fixture

end Watched

namespace Scope

/-- The scope with its fixture watched from now on. -/
def watched (s : Scope φ) : Scope (Watched φ) := ⟨⟨s.fixture, []⟩, s.bindings⟩

/-- The scope with its fixture no longer watched. -/
def unwatched (s : Scope (Watched φ)) : Scope φ := ⟨s.fixture.fixture, s.bindings⟩

/-- What was asked of the fixture since it is watched. -/
def requests (s : Scope (Watched φ)) : List Request := s.fixture.requests

end Scope
end LiveSpec
