import LiveSpec.Value

/-!
# Indented JSON

A value over several lines, for people to read: each item and each field stands on a line of its
own, two spaces further in than the brackets around it. Empty arrays and objects stay on one line.
-/

namespace LiveSpec.Json

/-- The start of a line at a depth. -/
def margin (depth : Nat) : String := "\n" ++ String.join (List.replicate depth "  ")

mutual
/-- The indented text of a value at a depth. -/
def indented (depth : Nat) : Value → String
  | .array (v :: vs) =>
    "[" ++ margin (depth + 1) ++ indented (depth + 1) v ++ moreItems (depth + 1) vs ++
      margin depth ++ "]"
  | .object ((name, v) :: fs) =>
    "\x7b" ++ margin (depth + 1) ++ Value.quoted name ++ ": " ++ indented (depth + 1) v
      ++ moreFields (depth + 1) fs ++ margin depth ++ "\x7d"
  | v => v.text
/-- The items after the first one, each after a comma and on its line. -/
def moreItems (depth : Nat) : List Value → String
  | [] => ""
  | v :: vs => "," ++ margin depth ++ indented depth v ++ moreItems depth vs
/-- The fields after the first one, each after a comma and on its line. -/
def moreFields (depth : Nat) : List (String × Value) → String
  | [] => ""
  | (name, v) :: fs =>
    "," ++ margin depth ++ Value.quoted name ++ ": " ++ indented depth v ++ moreFields depth fs
end

end LiveSpec.Json
