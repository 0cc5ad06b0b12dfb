import LiveSpec.Text.Case
import LiveSpec.Text.Split
import LiveSpec.Yaml.Schema

/-!
# Writing a scalar

A text is written plain where no reader could take it for anything else. Where one could, it stands
in single quotes; with a line end in it, it is written line by line; and with characters that cannot
be written as they are, it stands in double quotes.
-/

namespace LiveSpec.Yaml

/-- Words that an older version of YAML reads as truth values. -/
def truthWords : List String :=
  ["y", "Y", "yes", "Yes", "YES", "n", "N", "no", "No", "NO", "true", "True", "TRUE", "false", "False",
    "FALSE", "on", "On", "ON", "off", "Off", "OFF"]

/-- Says whether a text without line ends could be read as something else than a text, by some
reader. -/
def isAmbiguous (s : String) : Bool :=
  let lower := Text.lowerCase s
  let spellsOther :=
    match Spelled.of s with
    | .text => false
    | _ => true
  let begins (p : Char → Bool) : Bool := (s.toList.head?.map p).getD true
  truthWords.contains s || spellsOther || (Spelled.bool? lower).isSome || Spelled.isNull lower
    || begins fun c => c.isDigit || c == '-' || c == '.' || c == '+'

/-- Says whether a character can be written as it is. -/
def isWritable (c : Char) : Bool :=
  let n := c.toNat
  n == 10 || (32 ≤ n && n ≤ 126) || (0xA0 ≤ n && n ≤ 0xD7FF) ||
    (0xE000 ≤ n && n ≤ 0xFFFD && n != 0xFEFF)

/-- Says whether a space stands next to a line end, in this order. -/
def hasSpaceBreak : List Char → Bool
  | a :: b :: rest => (a == ' ' && isBreak b) || hasSpaceBreak (b :: rest)
  | _ => false

/-- Says whether a line after the first starts with a space. -/
def hasBreakSpace : List Char → Bool
  | a :: b :: rest => (isBreak a && b == ' ') || hasBreakSpace (b :: rest)
  | _ => false

/-- Says whether a character ends a word; so does the end of the text. -/
def endsWord (c? : Option Char) : Bool := (c?.map fun c => isSpace c || isBreak c).getD true

/-- Says whether a mark of YAML stands in a text after its first character: a colon that ends a
word, or a comment. -/
def hasMarkWithin : List Char → Bool
  | a :: b :: rest =>
    (b == ':' && endsWord rest.head?) || (b == '#' && endsWord (some a)) ||
      hasMarkWithin (b :: rest)
  | _ => false

/-- Says whether a text begins as something else than a plain scalar. -/
def beginsAsMark (cs : List Char) : Bool :=
  match cs with
  | [] => false
  | c :: rest =>
    ",[]\x7b\x7d#&*!|>'\"%@`".toList.contains c
      || ((c == '-' || c == '?' || c == ':') && endsWord rest.head?)
      || cs.take 3 == ['-', '-', '-'] || cs.take 3 == ['.', '.', '.']

/-- Says whether a text can only be written in double quotes. -/
def needsDouble (cs : List Char) : Bool := hasSpaceBreak cs || !cs.all isWritable

/-- Says whether a text can be written plain. -/
def fitsPlain (cs : List Char) : Bool :=
  let isOuter (c? : Option Char) : Bool := c? == some ' ' || (c?.map isBreak).getD false
  !(needsDouble cs || isOuter cs.head? || isOuter cs.getLast? || cs.any isBreak || beginsAsMark cs
    || hasMarkWithin cs)

/-- A hexadecimal number of a width, in upper case. -/
def codeText (width n : Nat) : List Char :=
  (List.range width).map fun i => (Value.hexDigit (n >>> (4 * (width - 1 - i)) % 16)).toUpper

/-- The letter after a backslash that stands for a character. -/
def letterOf? (c : Char) : Option Char :=
  [(0, '0'), (7, 'a'), (8, 'b'), (9, 't'), (10, 'n'), (11, 'v'), (12, 'f'), (13, 'r'),
    (27, 'e'), (34, '"'),
    (92, '\\'), (0x85, 'N'), (0x2028, 'L'), (0x2029, 'P')].lookup c.toNat

/-- A character between double quotes. -/
def escapedChar (c : Char) : List Char :=
  match letterOf? c with
  | some x => ['\\', x]
  | none =>
    let n := c.toNat
    if isWritable c then [c]
    else if n ≤ 0xFF then '\\' :: 'x' :: codeText 2 n
    else if n ≤ 0xFFFF then '\\' :: 'u' :: codeText 4 n
    else '\\' :: 'U' :: codeText 8 n

/-- A text in double quotes. -/
def doubleQuoted (s : String) : String := .ofList ('"' :: s.toList.flatMap escapedChar ++ ['"'])

/-- A text in single quotes. -/
def singleQuoted (s : String) : String :=
  .ofList ('\'' :: (s.toList.flatMap fun c => if c == '\'' then ['\'', '\''] else [c]) ++ ['\''])

/-- A text line by line. The header says how the lines are indented if the first one starts with a
blank, and what becomes of the line ends at the end. -/
def linewise (s : String) : String :=
  let cs := s.toList
  let isBreak? (c? : Option Char) : Bool := (c?.map isBreak).getD false
  let indentHint := if cs.head? == some ' ' || isBreak? cs.head? then "2" else ""
  let last := cs.reverse
  let chompHint :=
    if !isBreak? last.head? then "-" else if last.length == 1 || isBreak? last[1]? then "+" else ""
  let lines := (Text.cuts (· == '\n') cs).map String.ofList
  let body := "\n".intercalate (lines.map fun line => if line = "" then "" else "  " ++ line)
  "|" ++ indentHint ++ chompHint ++ "\n"
    ++ (if isBreak? last.head? then .ofList (body.toList.dropLast) else body)

/-- A text as the value of an entry or as an item. -/
def written (s : String) : String :=
  let cs := s.toList
  if truthWords.contains s then singleQuoted s
  else if cs.contains '\n' then
    if needsDouble cs || cs.getLast? == some ' ' then doubleQuoted s else linewise s
  else if !isAmbiguous s && fitsPlain cs then s
  else if needsDouble cs || hasBreakSpace cs then doubleQuoted s
  else singleQuoted s

end LiveSpec.Yaml
