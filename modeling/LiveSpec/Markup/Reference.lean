import LiveSpec.Markup.NamedCharacters
import LiveSpec.Text.Split
import LiveSpec.Numeral

/-!
# Character references

A document can name a character by its code point, `&#233;` or `&#xE9;`, or by a name, `&eacute;`.
What does not form a reference is text.
-/

namespace LiveSpec.Markup

/-- Says whether a character is an ASCII letter. -/
def isAsciiLetter (c : Char) : Bool := ('a' ≤ c && c ≤ 'z') || ('A' ≤ c && c ≤ 'Z')

/-- Says whether a character is an ASCII letter or digit. -/
def isAsciiAlnum (c : Char) : Bool := isAsciiLetter c || Numeral.isDigit c

/-- The value of a hexadecimal digit. -/
def hexDigit? (c : Char) : Option Nat :=
  if Numeral.isDigit c then some (c.toNat - 48)
  else if 'a' ≤ c && c ≤ 'f' then some (c.toNat - 87)
  else if 'A' ≤ c && c ≤ 'F' then some (c.toNat - 55)
  else none

/-- The number that hexadecimal digits denote. -/
def hexValue (ds : List Char) : Nat := ds.foldl (fun n c => 16 * n + (hexDigit? c).getD 0) 0

/-- The words of a table row. -/
def rowWords (row : String) : List String := (Text.cuts (· == ' ') row.toList).map String.ofList

/-- An entry of the table: a name, and the characters it stands for. -/
def tableEntry (entry : String) : String × List Char :=
  match Text.cutAt? '=' entry.toList with
  | some (name, codes) =>
    (.ofList name, (Text.cuts (· == '+') codes).map fun ds => Char.ofNat (hexValue ds))
  | none => (entry, [])

/-- The named characters. -/
def namedCharacters : List (String × List Char) :=
  (namedCharacterRows.flatMap rowWords).map tableEntry

/-- The names that need no semicolon. -/
def shortNames : List String := shortNameRows.flatMap rowWords

/-- The characters that a name stands for. -/
def named? (name : String) : Option (List Char) := namedCharacters.lookup name

/-- What the code points from 0x80 to 0x9F stand for in a numeric reference. -/
def westernCodes : List Nat :=
  [0x20AC, 0x81, 0x201A, 0x192, 0x201E, 0x2026, 0x2020, 0x2021, 0x2C6, 0x2030, 0x160, 0x2039, 0x152, 0x8D, 0x17D,
    0x8F, 0x90, 0x2018, 0x2019, 0x201C, 0x201D, 0x2022, 0x2013, 0x2014, 0x2DC, 0x2122, 0x161, 0x203A, 0x153, 0x9D,
    0x17E, 0x178]

/-- The character that a number refers to. -/
def numbered (n : Nat) : Char :=
  if n = 0 || n > 0x10FFFF || (0xD800 ≤ n && n ≤ 0xDFFF) then Char.ofNat 0xFFFD
  else if 0x80 ≤ n && n ≤ 0x9F then Char.ofNat (westernCodes.getD (n - 0x80) n)
  else Char.ofNat n

/-- A reference is closed by a semicolon, which may be missing. -/
def dropSemicolon : List Char → List Char
  | ';' :: rest => rest
  | rest => rest

/-- A reference by number, after the number sign. -/
def numericReference? (cs : List Char) : Option (List Char × List Char) :=
  match cs with
  | 'x' :: rest | 'X' :: rest =>
    let ds := rest.takeWhile fun c => (hexDigit? c).isSome
    if ds.isEmpty then none
    else some ([numbered (hexValue ds)],
      dropSemicolon (rest.dropWhile fun c => (hexDigit? c).isSome))
  | _ =>
    let ds := cs.takeWhile Numeral.isDigit
    if ds.isEmpty then none
    else some ([numbered (Numeral.digitsValue 0 ds)], dropSemicolon (cs.dropWhile Numeral.isDigit))

/-- The longest short name that begins a word of letters and digits. -/
def shortPrefix? (word : List Char) : Option (List Char) :=
  (List.range (word.length + 1)).foldl
    (fun best n => if shortNames.contains (.ofList (word.take n)) then
      some (word.take n) else best) none

/-- A reference by name. Inside the value of an attribute a short name counts only if neither a
letter, a digit nor an equals sign follows. -/
def namedReference? (inValue : Bool) (cs : List Char) : Option (List Char × List Char) :=
  let word := cs.takeWhile isAsciiAlnum
  let rest := cs.dropWhile isAsciiAlnum
  let short? : Option (List Char × List Char) := do
    let name ← shortPrefix? word
    let rest := cs.drop name.length
    let goesOn := (rest.head?.map fun c => c == '=' || isAsciiAlnum c).getD false
    if inValue && goesOn then none
    return (← named? (.ofList name), rest)
  match rest with
  | ';' :: after =>
    match named? (.ofList word) with
    | some s => some (s, after)
    | none => short?
  | _ => short?

/-- A reference after its `&`: the characters it stands for, and what follows it. -/
def reference? (inValue : Bool) (cs : List Char) : Option (List Char × List Char) :=
  match cs with
  | '#' :: rest => numericReference? rest
  | c :: _ => if isAsciiAlnum c then namedReference? inValue cs else none
  | [] => none

/-- A text with its references resolved; each step takes a character, so the length is fuel enough.
-/
def resolveWithin (inValue : Bool) : Nat → List Char → List Char
  | 0, cs => cs
  | _, [] => []
  | fuel + 1, c :: cs =>
    if c = '&' then
      match reference? inValue cs with
      | some (s, rest) => s ++ resolveWithin inValue fuel rest
      | none => c :: resolveWithin inValue fuel cs
    else c :: resolveWithin inValue fuel cs

/-- A text with its references resolved. -/
def resolveReferences (inValue : Bool) (cs : List Char) : List Char :=
  resolveWithin inValue (cs.length + 1) cs

end LiveSpec.Markup
