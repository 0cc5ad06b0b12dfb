import LiveSpec.Markup.Name
import LiveSpec.Text.Blank

/-!
# The attributes of an element

Attributes keep the order of the document. Their names are compared without regard to the case of
ASCII letters, so at most one of several spellings is ever found.

The attribute `class` holds a list of words. `addClass` adds a word that is not yet among them at
the end.
-/

namespace LiveSpec.Markup

/-- The attributes of an element, in the order of the document. -/
abbrev Attributes := List (String × String)

namespace Attributes

/-- The value of the first attribute with a name. -/
def find? (name : String) : Attributes → Option String
  | [] => none
  | (n, v) :: rest => if Text.sameName n name then some v else find? name rest

/-- Writes a value: to the first attribute of that name, else to a new one at the end. -/
def put (name value : String) : Attributes → Attributes
  | [] => [(name, value)]
  | (n, v) :: rest => if Text.sameName n name then (n, value) :: rest else (n,
    v) :: put name value rest

/-- The attributes without those of a name. -/
def erase (name : String) (as : Attributes) : Attributes :=
  as.filter fun (n, _) => !Text.sameName n name

/-- Adds a value to an attribute, behind a comma unless it was empty or absent. -/
def append (name value : String) (as : Attributes) : Attributes :=
  match as.find? name with
  | some old => as.put name (if old = "" then value else old ++ "," ++ value)
  | none => as.put name value

/-- The words of the attribute `class`. -/
def classes (as : Attributes) : List String :=
  match as.find? "class" with
  | some v => (Text.words v.toList).map String.ofList
  | none => []

/-- Says whether the attribute `class` lists a word. -/
def hasClass (word : String) (as : Attributes) : Bool := as.classes.contains word

/-- Adds a word to the attribute `class`, unless it is listed already. -/
def addClass (word : String) (as : Attributes) : Attributes :=
  if as.hasClass word then as
  else
    let old := Text.trimmed ((as.find? "class").getD "")
    as.put "class" (if old = "" then word else old ++ " " ++ word)

end Attributes
end LiveSpec.Markup
