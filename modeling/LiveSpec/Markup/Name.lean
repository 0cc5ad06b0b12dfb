import LiveSpec.Text.Case
import LiveSpec.Text.Split

/-!
# Names in a document

The name of an element or of an attribute can carry a mark before a colon. The mark stands for a
namespace, which an attribute `xmlns:mark` of the element or of one above it declares.
-/

namespace LiveSpec.Markup

/-- A name taken apart at its first colon: the mark, if there is one, and the rest. A colon at
either end of the name separates nothing. -/
def splitName (name : String) : Option String × String :=
  match Text.cutAt? ':' name.toList with
  | some (mark, rest) =>
    if mark.isEmpty || rest.isEmpty then (none, name) else (some (.ofList mark), .ofList rest)
  | none => (none, name)

/-- The name of the attribute that declares what a mark stands for. -/
def declarationOf (mark : String) : String := "xmlns:" ++ mark

end LiveSpec.Markup
