import LiveSpec.Text.Blank
import LiveSpec.Text.Hidden
import LiveSpec.Text.Letter
import LiveSpec.Numeral
import LiveSpec.Value

/-!
# The tokens of an expression

`Token.scan` cuts an expression text into tokens. Blanks separate tokens and are dropped. A name
takes all letters, numbers and underscores that follow; a minus sign belongs to the number after it;
a point belongs to a number only if a digit follows.

A fault says what was wrong. The positions in it count characters from the start of the text.
-/

namespace LiveSpec

/-- A token of an expression. -/
inductive Token where
  | variable (name : String)
  | ident (name : String)
  | text (s : String)
  | integer (n : Int)
  | decimal (x : Float)
  | leftParen
  | rightParen
  | leftBracket
  | rightBracket
  | dot
  | comma
  | equals
deriving Inhabited

namespace Token

/-- A token as a message names it. -/
def describe : Token → String
  | .variable name => "Variable(" ++ Text.spelled name ++ ")"
  | .ident name => "Ident(" ++ Text.spelled name ++ ")"
  | .text s => "Str(" ++ Text.spelled s ++ ")"
  | .integer n => "Number(Number(" ++ toString n ++ "))"
  | .decimal x => "Number(Number(" ++ Value.floatText x ++ "))"
  | .leftParen => "LParen"
  | .rightParen => "RParen"
  | .leftBracket => "LBracket"
  | .rightBracket => "RBracket"
  | .dot => "Dot"
  | .comma => "Comma"
  | .equals => "Equals"

end Token

/-- What can be wrong with an expression text. -/
inductive SyntaxFault where
  /-- A `#` without a name. -/
  | noVariableName (position : Nat)
  | unexpectedCharacter (c : Char) (position : Nat)
  | unterminatedText (position : Nat)
  /-- A number beyond the range of its kind. -/
  | invalidNumber (text : String)
  | empty
  | unexpected (t : Token)
  /-- A token other than the one that must follow, or none. -/
  | expected (t : Token) (found : Option Token)
  /-- A point without a field name. -/
  | noFieldName
  | malformedArguments
  /-- A token after the end of the expression. -/
  | trailing (t : Token)
deriving Inhabited

/-- The wording of a fault. -/
def SyntaxFault.message : SyntaxFault → String
  | .noVariableName i => "expected a variable name after '#' at " ++ toString i
  | .unexpectedCharacter c i =>
    "unexpected character '" ++ String.singleton c ++ "' at " ++ toString i
  | .unterminatedText i => "unterminated string starting at " ++ toString i
  | .invalidNumber text => "invalid number '" ++ text ++ "'"
  | .empty => "empty expression"
  | .unexpected t => "unexpected " ++ t.describe
  | .expected t (some u) => "expected " ++ t.describe ++ ", found " ++ u.describe
  | .expected t none => "expected " ++ t.describe ++ ", found end of expression"
  | .noFieldName => "expected a field name after '.'"
  | .malformedArguments => "expected ',' or ')' in argument list"
  | .trailing t => "unexpected trailing " ++ t.describe

namespace Token

/-- Says whether a character can stand inside a name. -/
def inName (c : Char) : Bool := Text.isLetterOrNumber c || c == '_'

/-- Says whether a character can begin a name of a member. -/
def beginsName (c : Char) : Bool := Text.isLetter c || c == '_'

/-- The characters up to the closing quote, and what follows it. A backslash keeps the character
after it from being a quote; a backslash at the very end is an ordinary character. -/
def textBody (quote : Char) : List Char → Option (List Char × List Char)
  | [] => none
  | [c] => if c = quote then some ([], []) else none
  | c :: d :: cs =>
    if c = '\\' then (textBody quote cs).map fun (body, rest) => (d :: body, rest)
    else if c = quote then some ([], d :: cs)
    else (textBody quote (d :: cs)).map fun (body, rest) => (c :: body, rest)

/-- What follows a text is shorter than what began with it. -/
theorem textBody_length {quote : Char} {cs body rest : List Char}
    (h : textBody quote cs = some (body, rest)) : rest.length < cs.length := by
  fun_induction textBody quote cs generalizing body rest with
  | case1 => simp at h
  | case2 => simp at h; simp [← h.2]
  | case3 => simp at h
  | case4 d cs ih =>
    obtain ⟨⟨b, r⟩, hr, he⟩ := Option.map_eq_some_iff.mp h
    have := ih hr
    simp at he
    simp [← he.2]; omega
  | case5 d cs _ => simp at h; simp [← h.2]
  | case6 c d cs _ _ ih =>
    obtain ⟨⟨b, r⟩, hr, he⟩ := Option.map_eq_some_iff.mp h
    have := ih hr
    simp at he
    simp [← he.2] at *; omega

/-- The length of a number that begins at the start of the text: a minus sign, digits, and a point
with the digits after it. The flag says whether there is a point. -/
def numberSpan (cs : List Char) : Nat × Bool :=
  let sign := if cs.head? = some '-' then 1 else 0
  let whole := ((cs.drop sign).takeWhile Numeral.isDigit).length
  match cs.drop (sign + whole) with
  | '.' :: d :: more =>
    if Numeral.isDigit d then
      (sign + whole + 1 + ((d :: more).takeWhile Numeral.isDigit).length, true)
    else (sign + whole, false)
  | _ => (sign + whole, false)

/-- The token of a number text. -/
def ofNumber (cs : List Char) (isDecimal : Bool) : Except SyntaxFault Token :=
  if isDecimal then
    match Numeral.float? cs with
    | some x => if x.isInf then .error (.invalidNumber (.ofList cs)) else .ok (.decimal x)
    | none => .error (.invalidNumber (.ofList cs))
  else
    match Numeral.signed? cs with
    | some n => .ok (.integer n)
    | none => .error (.invalidNumber (.ofList cs))

/-- The token that one character is. -/
def ofMark? (c : Char) : Option Token :=
  if c = '(' then some .leftParen
  else if c = ')' then some .rightParen
  else if c = '[' then some .leftBracket
  else if c = ']' then some .rightBracket
  else if c = '.' then some .dot
  else if c = ',' then some .comma
  else if c = '=' then some .equals
  else none

/-- Says whether a number begins with `c`, given what follows. -/
def beginsNumber (c : Char) (cs : List Char) : Bool :=
  Numeral.isDigit c || (c == '-' && (cs.head?.map Numeral.isDigit).getD false)

/-- The first token of a text and the text after it. The text begins at `position` and with `c`,
which is not blank. -/
def next (position : Nat) (c : Char) (cs : List Char) :
    Except SyntaxFault (Token × { rest : List Char // rest.length ≤ cs.length }) :=
  match ofMark? c with
  | some t => .ok (t, ⟨cs, Nat.le_refl _⟩)
  | none =>
    if c = '#' then
      let name := cs.takeWhile inName
      if name.isEmpty then .error (.noVariableName position)
      else .ok (.variable (.ofList name),
        ⟨cs.dropWhile inName, (cs.dropWhile_suffix inName).length_le⟩)
    else if c = '\'' ∨ c = '"' then
      match h : textBody c cs with
      | some (body, rest) => .ok (.text (.ofList body), ⟨rest, Nat.le_of_lt (textBody_length h)⟩)
      | none => .error (.unterminatedText position)
    else if beginsNumber c cs then
      let (n, isDecimal) := numberSpan (c :: cs)
      match ofNumber ((c :: cs).take n) isDecimal with
      | .ok t => .ok (t, ⟨cs.drop (n - 1), by simp⟩)
      | .error e => .error e
    else if beginsName c then
      .ok (.ident (.ofList (c :: cs.takeWhile inName)),
        ⟨cs.dropWhile inName, (cs.dropWhile_suffix inName).length_le⟩)
    else .error (.unexpectedCharacter c position)

/-- The tokens of a text that begins at `position`. -/
def scanFrom (position : Nat) : List Char → Except SyntaxFault (List Token)
  | [] => .ok []
  | c :: cs =>
    if Text.isBlank c then scanFrom (position + 1) cs
    else
      match next position c cs with
      | .error e => .error e
      | .ok (t, ⟨rest, _⟩) =>
        match scanFrom (position + 1 + (cs.length - rest.length)) rest with
        | .error e => .error e
        | .ok ts => .ok (t :: ts)
termination_by cs => cs.length

/-- The tokens of a text. -/
def scan (s : String) : Except SyntaxFault (List Token) := scanFrom 0 s.toList

end Token
end LiveSpec
