/-!
# Cutting a text at a character

`cuts p cs` are the pieces of `cs` between the characters that satisfy `p`: always one piece more
than there are such characters, and none of the pieces contains one.
-/

namespace LiveSpec.Text

/-- The pieces between the characters that satisfy `p`. -/
def cuts (p : Char → Bool) : List Char → List (List Char)
  | [] => [[]]
  | c :: cs =>
    if p c then [] :: cuts p cs
    else
      match cuts p cs with
      | [] => [[c]]
      | w :: ws => (c :: w) :: ws

/-- The text before the first `c` and the text after it, if there is one. -/
def cutAt? (c : Char) : List Char → Option (List Char × List Char)
  | [] => none
  | d :: ds => if d = c then some ([], ds) else (cutAt? c ds).map fun (a, b) => (d :: a, b)

end LiveSpec.Text
