import LiveSpec.Yaml.Scalar

/-!
# Tokens of YAML

A YAML text becomes a list of tokens in which indentation is made explicit: where a block begins and
ends there is a token for it.

Whether a scalar is the key of a mapping is known only when its colon is found. Until then its place
is kept as a possible key (`PossibleKey`): one for each level of brackets, on one line, and at most
1024 characters back. With the colon, the tokens that were missing are put in at that place. In a
block, a scalar at the column of the keys has to be one.

Scanning has no value where the text is malformed.
-/

namespace LiveSpec.Yaml

/-- The tokens of a YAML text. -/
inductive Token where
  | version (major minor : Nat)
  /-- A shorthand for the start of tags. -/
  | shorthand (handle text : String)
  | documentStart
  | documentEnd
  | blockSequence
  | blockMapping
  | blockEnd
  | flowSequence
  | flowSequenceEnd
  | flowMapping
  | flowMappingEnd
  /-- The dash before an item. -/
  | dash
  | comma
  | key
  | value
  | alias (name : String)
  | anchor (name : String)
  | tag (handle rest : String)
  | scalar (style : Style) (text : String)
deriving DecidableEq, Repr, Inhabited

/-- A place where a key may have begun. -/
structure PossibleKey where
  /-- The number of tokens before it. -/
  place : Nat
  line : Nat
  column : Nat
  index : Nat
  /-- Whether what stands there has to be a key. -/
  isRequired : Bool
deriving DecidableEq, Repr

/-- The state of scanning. -/
structure Scanner where
  cursor : Cursor
  tokens : Array Token
  /-- The column of the innermost block; -1 outside of all blocks. -/
  indent : Int
  /-- The columns of the blocks around it, the nearest first. -/
  outer : List Int
  /-- The possible key of each level of brackets, the innermost first; the last one is that of the
  block. -/
  keys : List (Option PossibleKey)
  /-- Whether a key may begin here. -/
  allowsKey : Bool

namespace Scanner

/-- The scanner at the start of a text. -/
def start (cs : List Char) : Scanner := ⟨.start cs, #[], -1, [], [none], true⟩

/-- Says whether the scanner is between brackets. -/
def inFlow (s : Scanner) : Bool := s.keys.length > 1

/-- Adds a token. -/
def push (s : Scanner) (t : Token) : Scanner := { s with tokens := s.tokens.push t }

/-- Adds a token and goes on by some characters. -/
def pushOver (s : Scanner) (t : Token) (count : Nat) : Scanner :=
  { s.push t with cursor := s.cursor.skip count }

/-! ## Blocks -/

/-- Begins a block at a column, unless one begins there or further in. The token goes to a place
before the end if one is given. -/
def roll (s : Scanner) (column : Nat) (place : Option Nat) (t : Token) : Scanner :=
  if s.inFlow || (column : Int) ≤ s.indent then s
  else
    { s with
      outer := s.indent :: s.outer
      indent := column
      tokens :=
        match place with
        | some i => s.tokens.insertIdxIfInBounds i t
        | none => s.tokens.push t }

/-- Ends the blocks that begin after a column, given the columns around them. -/
def unrollFrom (column : Int) (s : Scanner) : List Int → Scanner
  | [] => s
  | n :: rest =>
    if s.indent > column then unrollFrom column
      { s.push .blockEnd with indent := n, outer := rest } rest
    else s

/-- Ends the blocks that begin after a column. Between brackets indentation does not matter. -/
def unroll (s : Scanner) (column : Int) : Scanner :=
  if s.inFlow then s else unrollFrom column s s.outer

/-! ## Possible keys -/

/-- The innermost possible key. -/
def key? (s : Scanner) : Option PossibleKey := (s.keys.head?).join

/-- Replaces the innermost possible key. -/
def withKey (s : Scanner) (k : Option PossibleKey) : Scanner :=
  { s with keys := k :: s.keys.drop 1 }

/-- Says whether a possible key is too far back to be one. -/
def isStale (c : Cursor) (k : PossibleKey) : Bool := k.line < c.line || k.index + 1024 < c.index

/-- Gives up the possible keys that are too far back. That is malformed for a required one. -/
def refresh (s : Scanner) : Option Scanner := do
  let keys ← s.keys.mapM fun k? =>
    match k? with
    | some k =>
      if !isStale s.cursor k then some (some k) else if k.isRequired then none else some none
    | none => some none
  return { s with keys := keys }

/-- Gives up the innermost possible key. That is malformed if it is required. -/
def dropKey (s : Scanner) : Option Scanner :=
  if (s.key?.map PossibleKey.isRequired).getD false then none else some (s.withKey none)

/-- Notes that a key may begin here, if one may. -/
def noteKey (s : Scanner) : Option Scanner :=
  if !s.allowsKey then some s
  else do
    let s ← s.dropKey
    let c := s.cursor
    let isRequired := !s.inFlow && s.indent == (c.column : Int)
    return s.withKey (some ⟨s.tokens.size, c.line, c.column, c.index, isRequired⟩)

/-- Sets whether a key may begin here. -/
def allowing (s : Scanner) (allowed : Bool) : Scanner := { s with allowsKey := allowed }

/-! ## Marks -/

/-- A line that starts or ends a document. -/
def takeDocumentMark (s : Scanner) : Option Scanner := do
  let s ← (s.unroll (-1)).dropKey
  return (s.allowing false).pushOver (if s.cursor.looksAt '-' then .documentStart else
    .documentEnd) 3

/-- A bracket that opens a collection. -/
def openFlow (s : Scanner) (t : Token) : Option Scanner := do
  let s ← s.noteKey
  return ({ s with keys := none :: s.keys }.allowing true).pushOver t 1

/-- A bracket that closes a collection. -/
def closeFlow (s : Scanner) (t : Token) : Option Scanner := do
  let s ← s.dropKey
  let s := if s.inFlow then { s with keys := s.keys.drop 1 } else s
  return (s.allowing false).pushOver t 1

/-- A comma. -/
def takeComma (s : Scanner) : Option Scanner := do
  let s ← s.dropKey
  return (s.allowing true).pushOver .comma 1

/-- A dash before an item. -/
def takeDash (s : Scanner) : Option Scanner := do
  if !s.inFlow && !s.allowsKey then none
  let s ← (s.roll s.cursor.column none .blockSequence).dropKey
  return (s.allowing true).pushOver .dash 1

/-- A question mark before a key. -/
def takeKeyMark (s : Scanner) : Option Scanner := do
  if !s.inFlow && !s.allowsKey then none
  let s ← (s.roll s.cursor.column none .blockMapping).dropKey
  return (s.allowing !s.inFlow).pushOver .key 1

/-- A colon before a value. If a possible key stands before it on the same line, that is the key. -/
def takeColon (s : Scanner) : Option Scanner := do
  let s ← s.refresh
  match s.key? with
  | some k =>
    let s := { s with tokens := s.tokens.insertIdxIfInBounds k.place .key }
    let s := (s.roll k.column (some k.place) .blockMapping).withKey none
    return (s.allowing false).pushOver .value 1
  | none =>
    if !s.inFlow && !s.allowsKey then none
    let s := s.roll s.cursor.column none .blockMapping
    return (s.allowing !s.inFlow).pushOver .value 1

/-! ## Names and tags -/

/-- An anchor or an alias after its mark. -/
def takeAnchor (s : Scanner) (make : String → Token) : Option Scanner := do
  let s ← s.noteKey
  let (name, c) := (s.cursor.skip 1).takeWhile isNameChar
  let isEnd := c.endsWordAt 0 || (c.rest.head?.map "?:,]\x7d%@`".toList.contains).getD false
  if name.isEmpty || !isEnd then none
  return { (s.allowing false).push (make (.ofList name)) with cursor := c }

/-- Says whether a character can stand in a tag; between angle brackets three more can. -/
def inTag (isVerbatim : Bool) (x : Char) : Bool :=
  isNameChar x || ";/?:@&=+$.!~*'()%".toList.contains x || (isVerbatim && ",[]".toList.contains x)

/-- The handle at the start of a tag, with its marks: `!`, `!!` or a name between two marks. Without
a second mark it is no handle but the start of the tag. -/
def tagHandle (c : Cursor) : List Char × Cursor :=
  let (name, c) := (c.skip 1).takeWhile isNameChar
  if c.looksAt '!' then ('!' :: name ++ ['!'], c.skip 1) else ('!' :: name, c)

/-- The parts of a tag, and the place after it. -/
def tagParts (c : Cursor) : Option (List Char × List Char × Cursor) := do
  if c.rest.take 2 == ['!', '<'] then
    let (text, c) := (c.skip 2).takeWhile (inTag true)
    if text.isEmpty || !c.looksAt '>' then none
    return ([], text, c.skip 1)
  let (handle, c) := tagHandle c
  let (text, c) := c.takeWhile (inTag false)
  if handle.length > 1 && handle.getLast? == some '!' then
    if text.isEmpty then none
    return (handle, text, c)
  match handle.drop 1 ++ text with
  | [] => return ([], ['!'], c)
  | text => return (['!'], text, c)

/-- A tag. -/
def takeTag (s : Scanner) : Option Scanner := do
  let s ← s.noteKey
  let (handle, text, c) ← tagParts s.cursor
  if !(c.endsWordAt 0 || (s.inFlow && c.looksAt ',')) then none
  return { (s.allowing false).push (.tag (.ofList handle) (.ofList text)) with cursor := c }

/-! ## Directives -/

/-- A number of at most nine digits. -/
def versionNumber? (c : Cursor) : Option (Nat × Cursor) :=
  let (digits, c) := c.takeWhile Char.isDigit
  if digits.isEmpty || digits.length > 9 then none else some (Numeral.digitsValue 0 digits, c)

/-- What a directive says, given its name. -/
def directive? (name : String) (c : Cursor) : Option (Token × Cursor) := do
  let c := c.skipSpaces
  if name = "YAML" then
    let (major, c) ← versionNumber? c
    if !c.looksAt '.' then none
    let (minor, c) ← versionNumber? (c.skip 1)
    return (.version major minor, c)
  else if name = "TAG" then
    if !c.looksAt '!' then none
    let (handle, c) := tagHandle c
    if (handle.length > 1 && handle.getLast? != some '!') || !c.atSpace then none
    let (text, c) := c.skipSpaces.takeWhile (inTag true)
    if text.isEmpty || !c.endsWordAt 0 then none
    return (.shorthand (.ofList handle) (.ofList text), c)
  else none

/-- A directive. Two names are known. -/
def takeDirective (s : Scanner) : Option Scanner := do
  let s ← (s.unroll (-1)).dropKey
  let (name, c) := (s.cursor.skip 1).takeWhile isNameChar
  if name.isEmpty || !c.endsWordAt 0 then none
  let (t, c) ← directive? (.ofList name) c
  let c := c.skipSpaces
  let c := if c.looksAt '#' then c.skipLine else c
  if !c.atLineEnd then none
  return { (s.allowing false).push t with cursor := c.skipBreak }

/-! ## Scalars -/

/-- A quoted scalar. -/
def takeQuoted (s : Scanner) (isSingle : Bool) : Option Scanner := do
  let s ← s.noteKey
  let c := s.cursor.skip 1
  let (text, c) ← quoted isSingle (c.rest.length + 1) [] c
  let style := if isSingle then .single else .double
  return { (s.allowing false).push (.scalar style (.ofList text)) with cursor := c }

/-- A plain scalar. If a line ended after it, a key may begin. -/
def takePlain (s : Scanner) : Option Scanner := do
  let s ← s.noteKey
  let (p, c) ← plain s.inFlow (s.indent + 1) (s.cursor.rest.length + 1) ⟨[], .none⟩ s.cursor
  return { (s.allowing p.gap.broken).push (.scalar .plain (.ofList p.text)) with cursor := c }

/-- A block scalar. -/
def takeBlock (s : Scanner) (isFolded : Bool) : Option Scanner := do
  let s ← s.dropKey
  let (text, c) ← block isFolded s.indent (s.cursor.skip 1)
  let style := if isFolded then .folded else .literal
  return { (s.allowing true).push (.scalar style (.ofList text)) with cursor := c }

/-- Says whether a plain scalar can begin with a character. A dash, a question mark and a colon need
a word after them. -/
def beginsPlain (s : Scanner) (x : Char) : Bool :=
  if x == '-' then !(s.cursor.rest[1]?.map isSpace).getD false
  else if x == '?' || x == ':' then !s.inFlow && !s.cursor.endsWordAt 1
  else !isSpace x && !",[]\x7b\x7d#&*!|>'\"%@`".toList.contains x

/-! ## The next token -/

/-- Goes over blanks, comments and line ends. A tab is no blank where a key may begin in a block. -/
def skipToToken : Nat → Scanner → Scanner
  | 0, s => s
  | fuel + 1, s =>
    let isBlank (x : Char) : Bool := x == ' ' || (x == '\t' && (s.inFlow || !s.allowsKey))
    let c := (s.cursor.takeWhile isBlank).2
    let c := if c.looksAt '#' then c.skipLine else c
    if c.atBreak then
      skipToToken fuel { s with cursor := c.skipBreak, allowsKey := s.allowsKey || !s.inFlow }
    else { s with cursor := c }

/-- Takes the token that begins with a character. -/
def take (s : Scanner) (x : Char) : Option Scanner :=
  let c := s.cursor
  if c.column == 0 && x == '%' then s.takeDirective
  else if c.atDocumentMark then s.takeDocumentMark
  else if x == '[' then s.openFlow .flowSequence
  else if x == '\x7b' then s.openFlow .flowMapping
  else if x == ']' then s.closeFlow .flowSequenceEnd
  else if x == '\x7d' then s.closeFlow .flowMappingEnd
  else if x == ',' then s.takeComma
  else if x == '-' && c.endsWordAt 1 then s.takeDash
  else if x == '?' && (s.inFlow || c.endsWordAt 1) then s.takeKeyMark
  else if x == ':' && (s.inFlow || c.endsWordAt 1) then s.takeColon
  else if x == '*' then s.takeAnchor .alias
  else if x == '&' then s.takeAnchor .anchor
  else if x == '!' then s.takeTag
  else if x == '|' && !s.inFlow then s.takeBlock false
  else if x == '>' && !s.inFlow then s.takeBlock true
  else if x == '\'' then s.takeQuoted true
  else if x == '"' then s.takeQuoted false
  else if s.beginsPlain x then s.takePlain
  else none

/-- Scans the rest of a text. Each step takes at least one character. -/
def run : Nat → Scanner → Option (Array Token)
  | 0, _ => none
  | fuel + 1, s => do
    let s ← s.refresh
    let s := skipToToken (s.cursor.rest.length + 1) s
    let s := s.unroll s.cursor.column
    match s.cursor.rest with
    | [] => return (← (s.unroll (-1)).dropKey).tokens
    | x :: _ => run fuel (← s.take x)

end Scanner

/-- The tokens of a text. A mark for the order of bytes at its start does not count. -/
def Token.scan (text : String) : Option (List Token) :=
  if !text.toList.all isAllowed then none
  else
    let cs := if text.toList.head? == some '\uFEFF' then text.toList.drop 1 else text.toList
    (Scanner.run (cs.length + 1) (.start cs)).map Array.toList

end LiveSpec.Yaml
