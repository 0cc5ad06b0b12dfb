import LiveSpec.Json.Numeral

/-!
# Reading the data notation

`Json.read?` reads one value that fills the whole text. The notation is taken strictly: no comment,
no trailing comma, no leading zero, no control character inside quotes. Of a repeated field the last
value stays. Values are nested at most 127 deep.
-/

namespace LiveSpec.Json

/-- What is left of a text after a value was read from its start. -/
abbrev Rest := List Char

/-- The blanks of the notation. -/
def isBlank (c : Char) : Bool := c == ' ' || c == '\n' || c == '\r' || c == '\t'

/-- Skips blanks. -/
def skip (cs : List Char) : Rest := cs.dropWhile isBlank

/-- The value of a hexadecimal digit. -/
def hexValue? (c : Char) : Option Nat :=
  if '0' ≤ c && c ≤ '9' then some (c.toNat - 48)
  else if 'a' ≤ c && c ≤ 'f' then some (c.toNat - 87)
  else if 'A' ≤ c && c ≤ 'F' then some (c.toNat - 55)
  else none

/-- Four hexadecimal digits. -/
def hex4? : List Char → Option (Nat × Rest)
  | a :: b :: c :: d :: rest => do
    let a ← hexValue? a
    let b ← hexValue? b
    let c ← hexValue? c
    let d ← hexValue? d
    return (((a * 16 + b) * 16 + c) * 16 + d, rest)
  | _ => none

/-- The character after an escaping `u`: one unit, or two that form a pair. -/
def unicodeEscape? (cs : List Char) : Option (Char × Rest) := do
  let (high, rest) ← hex4? cs
  if 0xDC00 ≤ high && high ≤ 0xDFFF then none
  else if 0xD800 ≤ high && high ≤ 0xDBFF then
    match rest with
    | '\\' :: 'u' :: more => do
      let (low, rest) ← hex4? more
      if 0xDC00 ≤ low && low ≤ 0xDFFF then
        return (Char.ofNat (0x10000 + (high - 0xD800) * 0x400 + (low - 0xDC00)), rest)
      else none
    | _ => none
  else return (Char.ofNat high, rest)

/-- The character after a backslash. -/
def escape? : List Char → Option (Char × Rest)
  | '"' :: rest => some ('"', rest)
  | '\\' :: rest => some ('\\', rest)
  | '/' :: rest => some ('/', rest)
  | 'b' :: rest => some (Char.ofNat 8, rest)
  | 'f' :: rest => some (Char.ofNat 12, rest)
  | 'n' :: rest => some ('\n', rest)
  | 'r' :: rest => some ('\r', rest)
  | 't' :: rest => some ('\t', rest)
  | 'u' :: rest => unicodeEscape? rest
  | _ => none

/-- The characters up to the closing quote; `done` holds those already read, the last one first.
Each step takes at least one character, so the length of the text is fuel enough. -/
def stringBody? : Nat → List Char → List Char → Option (String × Rest)
  | 0, _, _ => none
  | fuel + 1, done, cs =>
    match cs with
    | [] => none
    | c :: rest =>
      if c = '"' then some (.ofList done.reverse, rest)
      else if c = '\\' then
        match escape? rest with
        | none => none
        | some (d, rest) => stringBody? fuel (d :: done) rest
      else if c.toNat < 32 then none
      else stringBody? fuel (c :: done) rest

/-- An exponent, if one follows. The outer option is none when it is malformed. -/
def exponentPart? (cs : List Char) : Option (Option Int × Rest) :=
  match cs with
  | c :: rest =>
    if c = 'e' || c = 'E' then
      let (negative, rest) :=
        match rest with
        | '-' :: more => (true, more)
        | '+' :: more => (false, more)
        | more => (false, more)
      let ds := rest.takeWhile Numeral.isDigit
      if ds.isEmpty then none else some (some (exponentOf negative ds),
        rest.dropWhile Numeral.isDigit)
    else some (none, cs)
  | [] => some (none, cs)

/-- A fraction, if one follows. The outer option is none when it is malformed. -/
def fractionPart? (cs : List Char) : Option (Option (List Char) × Rest) :=
  match cs with
  | '.' :: rest =>
    let ds := rest.takeWhile Numeral.isDigit
    if ds.isEmpty then none else some (some ds, rest.dropWhile Numeral.isDigit)
  | _ => some (none, cs)

/-- A number. -/
def number? (cs : List Char) : Option (Value × Rest) := do
  let (negative, cs) :=
    match cs with
    | '-' :: more => (true, more)
    | more => (false, more)
  let ds := cs.takeWhile Numeral.isDigit
  let rest := cs.dropWhile Numeral.isDigit
  if ds.isEmpty || (ds.length > 1 && ds.head? == some '0') then none
  let (fraction, rest) ← fractionPart? rest
  let (exponent, rest) ← exponentPart? rest
  let v ← numberValue? negative ds fraction exponent
  return (v, rest)

/-- A fixed word. -/
def word? (word : List Char) (v : Value) (cs : List Char) : Option (Value × Rest) :=
  if word.isPrefixOf cs then some (v, cs.drop word.length) else none

mutual
/-- A value, at most `depth` levels deep, after blanks. -/
def value? : Nat → Nat → List Char → Option (Value × Rest)
  | 0, _, _ => none
  | fuel + 1, depth, cs =>
    match skip cs with
    | '"' :: rest => (stringBody? (rest.length + 1) [] rest).map fun (s, r) => (.string s, r)
    | '[' :: rest =>
      if depth ≤ 1 then none
      else
        match skip rest with
        | ']' :: rest => some (.array [], rest)
        | rest => (items? fuel (depth - 1) [] rest).map fun (vs, r) => (.array vs, r)
    | '\x7b' :: rest =>
      if depth ≤ 1 then none
      else
        match skip rest with
        | '\x7d' :: rest => some (.object [], rest)
        | rest => (fields? fuel (depth - 1) [] rest).map fun (fs, r) => (.object fs, r)
    | 'n' :: rest => word? ['u', 'l', 'l'] .null rest
    | 't' :: rest => word? ['r', 'u', 'e'] (.bool true) rest
    | 'f' :: rest => word? ['a', 'l', 's', 'e'] (.bool false) rest
    | rest => number? rest
/-- The items of an array up to its closing bracket. -/
def items? : Nat → Nat → List Value → List Char → Option (List Value × Rest)
  | 0, _, _, _ => none
  | fuel + 1, depth, done, cs =>
    match value? fuel depth cs with
    | none => none
    | some (v, rest) =>
      match skip rest with
      | ',' :: rest => items? fuel depth (v :: done) rest
      | ']' :: rest => some ((v :: done).reverse, rest)
      | _ => none
/-- The fields of an object up to its closing brace. -/
def fields? : Nat → Nat → Entries Value → List Char → Option (Entries Value × Rest)
  | 0, _, _, _ => none
  | fuel + 1, depth, done, cs =>
    match skip cs with
    | '"' :: rest =>
      match stringBody? (rest.length + 1) [] rest with
      | none => none
      | some (name, rest) =>
        match skip rest with
        | ':' :: rest =>
          match value? fuel depth rest with
          | none => none
          | some (v, rest) =>
            match skip rest with
            | ',' :: rest => fields? fuel depth (Entries.put name v done) rest
            | '\x7d' :: rest => some (Entries.put name v done, rest)
            | _ => none
        | _ => none
    | _ => none
end

/-- Reads a text that is one value. -/
def read? (s : String) : Option Value :=
  let cs := s.toList
  match value? (cs.length + 2) 128 cs with
  | some (v, rest) => if (skip rest).isEmpty then some v else none
  | none => none

end LiveSpec.Json
