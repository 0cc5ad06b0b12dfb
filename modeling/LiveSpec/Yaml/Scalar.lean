import LiveSpec.Json.Reader
import LiveSpec.Yaml.Cursor

/-!
# Scalars

The text of a YAML scalar in its five styles. A scalar can go on over several lines. In the plain
and the quoted styles a single line end between words reads as a space, and further line ends are
kept; blanks around a line end do not count (`Gap.joined`). In the literal style lines are kept as
they are; in the folded style they are joined unless they are empty or indented further.

Reading fails with none where the text is malformed.
-/

namespace LiveSpec.Yaml

/-- The styles of scalars. -/
inductive Style where
  | plain
  | single
  | double
  | literal
  | folded
deriving DecidableEq, Repr, Inhabited

/-- What stands between two words of a scalar. -/
structure Gap where
  /-- The spaces on the line of the first word. -/
  blanks : List Char
  /-- Whether a line ended. -/
  broken : Bool
  /-- The first line end. -/
  first : List Char
  /-- All later line ends. -/
  more : List Char
deriving DecidableEq, Repr

namespace Gap

/-- Nothing. -/
def none : Gap := ⟨[], false, [], []⟩

/-- The text that a gap reads as. -/
def joined (g : Gap) : List Char :=
  if !g.broken then g.blanks
  else if g.first == ['\n'] then (if g.more.isEmpty then [' '] else g.more)
  else g.first ++ g.more

/-- Reads on over blanks and line ends. Tabs at the start of a line are refused before the column
`tabsFrom`. -/
def read (tabsFrom : Int) : Nat → Gap → Cursor → Option (Gap × Cursor)
  | 0, g, c => some (g, c)
  | fuel + 1, g, c =>
    if c.atSpace then
      if g.broken then
        if c.looksAt '\t' && (c.column : Int) < tabsFrom then Option.none
        else read tabsFrom fuel g (c.skip 1)
      else read tabsFrom fuel { g with blanks := g.blanks ++ c.rest.take 1 } (c.skip 1)
    else if c.atBreak then
      let (lineEnd, c) := c.readBreak
      if g.broken then read tabsFrom fuel { g with more := g.more ++ lineEnd } c
      else read tabsFrom fuel ⟨[], true, lineEnd, []⟩ c
    else some (g, c)

end Gap

/-! ## Plain scalars -/

/-- The marks of flow collections that end a plain scalar between brackets. -/
def endsFlowWord (x : Char) : Bool := x == ',' || x == '[' || x == ']' || x == '\x7b' || x == '\x7d'

/-- A word of a plain scalar. Between brackets, a colon before a bracket or a comma is malformed. -/
def plainWord (inFlow : Bool) : Nat → List Char → Cursor → Option (List Char × Cursor)
  | 0, word, c => some (word, c)
  | fuel + 1, word, c =>
    match c.rest with
    | [] => some (word, c)
    | x :: rest =>
      if isSpace x || isBreak x then some (word, c)
      else if inFlow && x == ':' && (rest.head?.map fun y => endsFlowWord y || y == '?').getD
        false then none
      else if (x == ':' && c.endsWordAt 1) || (inFlow && endsFlowWord x) then some (word, c)
      else plainWord inFlow fuel (word ++ [x]) (c.skip 1)

/-- A plain scalar read so far, and the gap after its last word. -/
structure Plain where
  text : List Char
  gap : Gap
deriving DecidableEq, Repr

/-- Reads a plain scalar that stands in a block whose entries begin before the column `indent`. It
ends at the mark of a document, at a comment, and on a line that is not indented far enough. -/
def plain (inFlow : Bool) (indent : Int) : Nat → Plain → Cursor → Option (Plain × Cursor)
  | 0, p, c => some (p, c)
  | fuel + 1, p, c => do
    if c.atDocumentMark || c.looksAt '#' then return (p, c)
    let (word, after) ← plainWord inFlow c.rest.length [] c
    let p : Plain := if word.isEmpty then p else ⟨p.text ++ p.gap.joined ++ word, .none⟩
    if !(after.atSpace || after.atBreak) then return (p, after)
    let (gap, next) ← Gap.read indent after.rest.length .none after
    let p : Plain := { p with gap := gap }
    if !inFlow && (next.column : Int) < indent then return (p, next)
    plain inFlow indent fuel p next

/-! ## Quoted scalars -/

/-- The character that a letter after a backslash stands for. -/
def escapeOf? (x : Char) : Option Char :=
  [('0', 0), ('a', 7), ('b', 8), ('t', 9), ('\t', 9), ('n', 10), ('v', 11), ('f', 12),
    ('r', 13), ('e', 27),
    (' ', 32), ('"', 34), ('/', 47), ('\\', 92), ('N', 0x85), ('_', 0xA0), ('L', 0x2028),
    ('P', 0x2029)].lookup x
    |>.map Char.ofNat

/-- The number of hexadecimal digits after an escape of a character by its code. -/
def codeLength? (x : Char) : Option Nat := [('x', 2), ('u', 4), ('U', 8)].lookup x

/-- The character of a code in hexadecimal digits. -/
def charOfCode? (digits : List Char) : Option Char := do
  let values ← digits.mapM Json.hexValue?
  let n := values.foldl (fun n d => 16 * n + d) 0
  if (0xD800 ≤ n && n ≤ 0xDFFF) || 0x10FFFF < n then none else some (Char.ofNat n)

/-- An escape after a backslash: its character, and the place after it. -/
def escape? (c : Cursor) : Option (Char × Cursor) := do
  let x ← c.rest[1]?
  match codeLength? x with
  | some length =>
    let digits := (c.rest.drop 2).take length
    if digits.length < length then none
    else return (← charOfCode? digits, c.skip (2 + length))
  | none => return (← escapeOf? x, c.skip 2)

/-- A word of a scalar in single quotes. Two quotes stand for one. -/
def singleWord : Nat → List Char → Cursor → List Char × Cursor
  | 0, word, c => (word, c)
  | fuel + 1, word, c =>
    match c.rest with
    | '\'' :: '\'' :: _ => singleWord fuel (word ++ ['\'']) (c.skip 2)
    | x :: _ =>
      if x == '\'' || isSpace x || isBreak x then (word, c) else
        singleWord fuel (word ++ [x]) (c.skip 1)
    | [] => (word, c)

/-- A word of a scalar in double quotes. A backslash at the end of a line joins the lines without a
space, which the last component says. -/
def doubleWord : Nat → List Char → Cursor → Option (List Char × Cursor × Bool)
  | 0, word, c => some (word, c, false)
  | fuel + 1, word, c =>
    match c.rest with
    | [] => some (word, c, false)
    | x :: rest =>
      if x == '"' || isSpace x || isBreak x then some (word, c, false)
      else if x == '\\' then
        if (rest.head?.map isBreak).getD false then some (word, (c.skip 1).skipBreak, true)
        else do
          let (y, c) ← escape? c
          doubleWord fuel (word ++ [y]) c
      else doubleWord fuel (word ++ [x]) (c.skip 1)

/-- Reads the rest of a quoted scalar, and the quote that ends it. -/
def quoted (isSingle : Bool) : Nat → List Char → Cursor → Option (List Char × Cursor)
  | 0, _, _ => none
  | fuel + 1, text, c => do
    if c.atDocumentMark || c.atEnd then none
    let (word, c, joinsLines) ←
      if isSingle then
        let (word, c) := singleWord c.rest.length [] c
        some (word, c, false)
      else doubleWord c.rest.length [] c
    let text := text ++ word
    if c.looksAt (if isSingle then '\'' else '"') then return (text, c.skip 1)
    let (gap, c) ← Gap.read 0 c.rest.length ⟨[], joinsLines, [], []⟩ c
    quoted isSingle fuel (text ++ gap.joined) c

/-! ## Block scalars -/

/-- What is done with the line ends after the last line. -/
inductive Chomping where
  /-- None stays. -/
  | strip
  /-- One stays. -/
  | clip
  /-- All stay. -/
  | keep
deriving DecidableEq, Repr

/-- The chomping that a sign stands for. -/
def chompingOf? (x : Char) : Option Chomping :=
  if x == '+' then some .keep else if x == '-' then some .strip else none

/-- The header of a block scalar after its mark: how it is chomped, how far it is indented if that
is said, and the place after. The two can stand in either order. -/
def blockHeader (c : Cursor) : Option (Chomping × Option Nat × Cursor) := do
  let chomping? (c : Cursor) : Option Chomping × Cursor :=
    match c.rest.head?.bind chompingOf? with
    | some k => (some k, c.skip 1)
    | none => (none, c)
  let digit? (c : Cursor) : Option (Option Nat × Cursor) :=
    match c.rest.head? with
    | some x =>
      if x == '0' then none
      else if x.isDigit then some (some (x.toNat - 48), c.skip 1)
      else some (none, c)
    | none => some (none, c)
  let (before, c) := chomping? c
  let (indent, c) ← digit? c
  let (after, c) := if before.isNone && indent.isSome then chomping? c else (none, c)
  return ((before <|> after).getD .clip, indent, c)

/-- Reads the empty lines before a line of a block scalar, and the spaces that indent that line.
While the indentation is not known, the widest one so far is kept track of. -/
def blockGap (indent? : Option Nat) : Nat → Nat → List Char → Cursor →
    Option (Nat × List Char × Cursor)
  | 0, widest, ends, c => some (widest, ends, c)
  | fuel + 1, widest, ends, c =>
    let room := (indent?.map fun n => n - c.column).getD c.rest.length
    let c := c.skip ((c.rest.takeWhile (· == ' ')).take room).length
    let widest := max widest c.column
    let isTooNear := (indent?.map fun n => decide (c.column < n)).getD true
    if isTooNear && c.looksAt '\t' then none
    else if c.atBreak then
      let (lineEnd, c) := c.readBreak
      blockGap indent? fuel widest (ends ++ lineEnd) c
    else some (widest, ends, c)

/-- A block scalar read so far. -/
structure Block where
  text : List Char
  /-- The line end after the last line. -/
  lineEnd : List Char
  /-- The empty lines after it. -/
  ends : List Char
  /-- Whether the last line starts with a blank. -/
  startsBlank : Bool
deriving DecidableEq, Repr

/-- Reads the lines of a block scalar. -/
def blockLines (isFolded : Bool) (indent : Nat) : Nat → Block → Cursor → Option (Block × Cursor)
  | 0, b, c => some (b, c)
  | fuel + 1, b, c => do
    if c.column != indent || c.atEnd then return (b, c)
    let folds := isFolded && b.lineEnd == ['\n'] && !b.startsBlank && !c.atSpace
    let between := if folds then (if b.ends.isEmpty then [' '] else []) else b.lineEnd
    let startsBlank := c.atSpace
    let (line, c) := c.takeWhile fun x => !isBreak x
    let (lineEnd, c) := c.readBreak
    let (_, ends, c) ← blockGap (some indent) c.rest.length 0 [] c
    blockLines isFolded indent fuel ⟨b.text ++ between ++ b.ends ++ line, lineEnd, ends,
      startsBlank⟩ c

/-- Reads a block scalar after its mark. Its lines are indented further than the block around it,
which begins at the column `outer`; the root has none, which is written as -1. -/
def block (isFolded : Bool) (outer : Int) (c : Cursor) : Option (List Char × Cursor) := do
  let (chomping, said, c) ← blockHeader c
  let c := c.skipSpaces
  let c := if c.looksAt '#' then c.skipLine else c
  if !c.atLineEnd then none
  let c := c.skipBreak
  let known? := said.map fun n => (max outer 0).toNat + n
  let (widest, ends, c) ← blockGap known? c.rest.length 0 [] c
  let indent := known?.getD (max widest (max (outer + 1) 1).toNat)
  let (b, c) ← blockLines isFolded indent c.rest.length ⟨[], [], ends, false⟩ c
  let tail :=
    match chomping with
    | .strip => []
    | .clip => b.lineEnd
    | .keep => b.lineEnd ++ b.ends
  return (b.text ++ tail, c)

end LiveSpec.Yaml
