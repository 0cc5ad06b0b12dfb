import LiveSpec.Text.Blank

/-!
# A place in a YAML text

Where a token stands decides what it means, so a place knows its line and column beside the text
that is left. The end of the text counts as a blank wherever a blank is asked for.

Five characters end a line. Of these, all but the two separators are read as a newline, and a
carriage return with a newline after it is one line end.
-/

namespace LiveSpec.Yaml

/-- A place in a text: what is left, and how far into the text and into which line it lies. -/
structure Cursor where
  rest : List Char
  line : Nat
  column : Nat
  index : Nat
deriving DecidableEq, Repr, Inhabited

/-- Says whether a character ends a line. -/
def isBreak (c : Char) : Bool :=
  c == '\n' || c == '\r' || c.toNat == 0x85 || c.toNat == 0x2028 || c.toNat == 0x2029

/-- Says whether a character separates words within a line. -/
def isSpace (c : Char) : Bool := c == ' ' || c == '\t'

/-- Says whether a character can stand in a name. -/
def isNameChar (c : Char) : Bool := c.isAlphanum || c == '_' || c == '-'

/-- Says whether a character can stand in a YAML text at all. -/
def isAllowed (c : Char) : Bool :=
  let n := c.toNat
  n == 9 || n == 10 || n == 13 || (32 ≤ n && n ≤ 126) || n == 0x85 ||
    (0xA0 ≤ n && n ≤ 0xFFFD) || 0x10000 ≤ n

namespace Cursor

/-- The start of a text. -/
def start (cs : List Char) : Cursor := ⟨cs, 0, 0, 0⟩

/-- Says whether the text ends here. -/
def atEnd (c : Cursor) : Bool := c.rest.isEmpty

/-- Says whether a character stands here. -/
def looksAt (c : Cursor) (x : Char) : Bool := c.rest.head? == some x

/-- Says whether the character `i` places ahead ends a word; the end of the text does. -/
def endsWordAt (c : Cursor) (i : Nat) : Bool :=
  match c.rest[i]? with
  | some x => isSpace x || isBreak x
  | none => true

/-- Says whether a space or a tab stands here. -/
def atSpace (c : Cursor) : Bool := (c.rest.head?.map isSpace).getD false

/-- Says whether a line end stands here. -/
def atBreak (c : Cursor) : Bool := (c.rest.head?.map isBreak).getD false

/-- Says whether a line, and perhaps the text, ends here. -/
def atLineEnd (c : Cursor) : Bool := c.atEnd || c.atBreak

/-- Goes on by a number of characters that do not end a line. -/
def skip (c : Cursor) (count : Nat) : Cursor :=
  ⟨c.rest.drop count, c.line, c.column + count, c.index + count⟩

/-- Goes on over a line end; the text is what it is read as. Where no line ends there is nothing to
read. -/
def readBreak (c : Cursor) : List Char × Cursor :=
  match c.rest with
  | '\r' :: '\n' :: rest => (['\n'], ⟨rest, c.line + 1, 0, c.index + 2⟩)
  | x :: rest =>
    if isBreak x then
      let isSeparator := x.toNat == 0x2028 || x.toNat == 0x2029
      (if isSeparator then [x] else ['\n'], ⟨rest, c.line + 1, 0, c.index + 1⟩)
    else ([], c)
  | [] => ([], c)

/-- Goes on over a line end. -/
def skipBreak (c : Cursor) : Cursor := c.readBreak.2

/-- The characters from here on that satisfy `p`, and the place after them. -/
def takeWhile (c : Cursor) (p : Char → Bool) : List Char × Cursor :=
  let taken := c.rest.takeWhile p
  (taken, c.skip taken.length)

/-- Goes on over spaces and tabs. -/
def skipSpaces (c : Cursor) : Cursor := (c.takeWhile isSpace).2

/-- Goes on to the end of the line. -/
def skipLine (c : Cursor) : Cursor := (c.takeWhile fun x => !isBreak x).2

/-- Says whether a mark that starts or ends a document stands here, on a line of its own. -/
def atDocumentMark (c : Cursor) : Bool :=
  c.column == 0 && (c.rest.take 3 == ['-', '-', '-'] || c.rest.take 3 == ['.', '.', '.']) &&
    c.endsWordAt 3

end Cursor
end LiveSpec.Yaml
