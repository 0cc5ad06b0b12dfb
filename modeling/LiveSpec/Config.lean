/-!
# Configuration

The settings of an engine, with the values that they have unless something else is asked for.
-/

namespace LiveSpec

/-- The settings of an engine. -/
structure Config where
  /-- The directory that output is written below. -/
  outputDir : String
  /-- Whether each document carries the style sheet of the engine. -/
  embedDefaultCss : Bool
  /-- For how many milliseconds a written file counts as fresh. -/
  freshWindowMs : Nat
  /-- How deep runs can be nested. -/
  maxNestingDepth : Nat
  /-- The extensions of the catalog that are applied, in order. -/
  extensions : List String
deriving DecidableEq, Repr, Inhabited

/-- The settings that nobody asked to change. -/
def Config.standard : Config := ⟨"target/concordant", true, 2000, 16, []⟩

end LiveSpec
