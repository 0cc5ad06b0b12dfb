import LiveSpec.Value
import LiveSpec.Numeral

/-!
# When a value is what the text says

An assertion compares a value with the text of its element. The kind of the value decides how the
text is read: a number is compared as a number (an integer with an integer only), all else as text.
Blanks never matter beyond separating words.
-/

namespace LiveSpec.Value

/-- Says whether a value is what a text of a document stands for. -/
def confirms (v : Value) (expected : String) : Bool :=
  let words := Text.normal expected
  match v with
  | .null => words == nullMarker
  | .bool b => words == if b then "true" else "false"
  | .int n =>
    if n < 0x8000000000000000 then Numeral.signed? words.toList == some n
    else Numeral.unsigned? words.toList == some n
  | .float x =>
    match Numeral.float? words.toList with
    | some y => y == x
    | none => false
  | .string s => Text.normal s == words
  | v => Text.normal v.display == words

end LiveSpec.Value
