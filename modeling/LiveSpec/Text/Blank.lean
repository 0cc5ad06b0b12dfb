/-!
# Blanks, and the text a reader sees

A specification is read the way a browser shows it: a run of blanks counts as one space, and blanks
at either end do not count at all. `Text.normal` brings a text into that form. It works in two
passes, `collapse` and `trim`, and both use the same class of characters, `isBlank`.

`isBlank` is the Unicode property White_Space, which has 25 members. The class of core's
`Char.isWhitespace` is a part of it.
-/

namespace LiveSpec.Text

/-- The Unicode property White_Space. -/
def isBlank (c : Char) : Bool :=
  let n := c.toNat
  (9 ≤ n && n ≤ 13) || n == 32 || n == 0x85 || n == 0xA0 || n == 0x1680 ||
    (0x2000 ≤ n && n ≤ 0x200A)
    || n == 0x2028 || n == 0x2029 || n == 0x202F || n == 0x205F || n == 0x3000

/-- Every maximal run of blanks becomes one space. -/
def collapse : List Char → List Char
  | [] => []
  | c :: cs =>
    if isBlank c then
      match cs with
      | [] => [' ']
      | d :: _ => if isBlank d then collapse cs else ' ' :: collapse cs
    else c :: collapse cs

/-- The text without the blanks at its start. -/
def trimLeft (cs : List Char) : List Char := cs.dropWhile isBlank

/-- The text without the blanks at its end. -/
def trimRight (cs : List Char) : List Char := (cs.reverse.dropWhile isBlank).reverse

/-- The text without the blanks at either end. -/
def trim (cs : List Char) : List Char := trimRight (trimLeft cs)

/-- The text as it is displayed: runs of blanks as one space, none at either end. -/
def normalChars (cs : List Char) : List Char := trim (collapse cs)

/-- The text as it is displayed, on strings. -/
def normal (s : String) : String := .ofList (normalChars s.toList)

/-- The string without the blanks at either end. -/
def trimmed (s : String) : String := .ofList (trim s.toList)

/-- The words of a text: its maximal runs of characters that are not blank. -/
def words : List Char → List (List Char)
  | [] => []
  | c :: cs =>
    if isBlank c then words cs
    else
      match cs with
      | [] => [[c]]
      | d :: _ =>
        if isBlank d then [c] :: words cs
        else
          match words cs with
          | [] => [[c]]
          | w :: ws => (c :: w) :: ws

end LiveSpec.Text
