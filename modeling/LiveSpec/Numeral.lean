/-!
# Reading numbers from text

`Numeral` reads the numbers that stand in a specification. An integer is a sign and decimal digits,
with a range that the reader names; a floating-point number has a point, an exponent, both or
neither, or is one of the words for the infinities and for no number. A decimal that lies between
two doubles reads as the nearer one.
-/

namespace LiveSpec.Numeral

/-- Says whether a character is an ASCII digit. -/
def isDigit (c : Char) : Bool := '0' ≤ c && c ≤ '9'

/-- The number that a list of digits denotes, continuing one already read. -/
def digitsValue (acc : Nat) (ds : List Char) : Nat :=
  ds.foldl (fun n c => 10 * n + (c.toNat - 48)) acc

/-- Digits alone, at least one. -/
def natural? (cs : List Char) : Option Nat :=
  if cs.isEmpty || !cs.all isDigit then none else some (digitsValue 0 cs)

/-- An integer of the signed 64-bit range; one sign is allowed. -/
def signed? (cs : List Char) : Option Int :=
  let n? : Option Int :=
    match cs with
    | '-' :: ds => (natural? ds).map fun n => -(n : Int)
    | '+' :: ds => (natural? ds).map fun n => (n : Int)
    | ds => (natural? ds).map fun n => (n : Int)
  n?.filter fun n => -0x8000000000000000 ≤ n && n < 0x8000000000000000

/-- An integer of the unsigned 64-bit range; a plus sign is allowed. -/
def unsigned? (cs : List Char) : Option Int :=
  let n? : Option Int :=
    match cs with
    | '+' :: ds => (natural? ds).map fun n => (n : Int)
    | ds => (natural? ds).map fun n => (n : Int)
  n?.filter fun n => n < 0x10000000000000000

/-- A decimal numeral taken apart: its digits as one number, and how far the point is shifted. -/
structure Parts where
  digits : Nat
  exponent : Int

/-- An exponent, if the text goes on with one. The result is none for a mark without digits. -/
def exponent? (cs : List Char) : Option Int :=
  match cs with
  | [] => some 0
  | c :: rest =>
    if c = 'e' || c = 'E' then
      match rest with
      | '-' :: ds => (natural? ds).map fun n => -(n : Int)
      | '+' :: ds => (natural? ds).map fun n => (n : Int)
      | ds => (natural? ds).map fun n => (n : Int)
    else none

/-- A decimal numeral without sign: digits, a point among them or at either end, an exponent. -/
def parts? (cs : List Char) : Option Parts := do
  let whole := cs.takeWhile isDigit
  let rest := cs.dropWhile isDigit
  let (fraction, rest) :=
    match rest with
    | '.' :: more => (more.takeWhile isDigit, more.dropWhile isDigit)
    | _ => ([], rest)
  if whole.isEmpty && fraction.isEmpty then none
  let e ← exponent? rest
  return ⟨digitsValue (digitsValue 0 whole) fraction, e - fraction.length⟩

/-- The double nearest to a decimal. Exponents beyond all doubles are not computed with. -/
def Parts.toFloat (p : Parts) : Float :=
  if p.digits = 0 then 0.0
  else
    let lead := p.exponent + ((toString p.digits).length : Int)
    if lead > 400 then 1.0 / 0.0
    else if lead < -400 then 0.0
    else if p.exponent ≥ 0 then Float.ofScientific p.digits false p.exponent.toNat
    else Float.ofScientific p.digits true (-p.exponent).toNat

/-- ASCII letters in lower case. -/
def lower (cs : List Char) : List Char := cs.map Char.toLower

/-- A floating-point number: a decimal numeral or one of the words `inf`, `infinity` and `nan` in
any case, after at most one sign. -/
def float? (cs : List Char) : Option Float :=
  let (negative, body) :=
    match cs with
    | '-' :: rest => (true, rest)
    | '+' :: rest => (false, rest)
    | rest => (false, rest)
  let magnitude? : Option Float :=
    let word := String.ofList (lower body)
    if word = "inf" || word = "infinity" then some (1.0 / 0.0)
    else if word = "nan" then some (0.0 / 0.0)
    else (parts? body).map Parts.toFloat
  magnitude?.map fun x => if negative then -x else x

end LiveSpec.Numeral
