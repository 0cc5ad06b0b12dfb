import LiveSpec.Entries
import LiveSpec.Text.Blank
import LiveSpec.Decimal.Notation

/-!
# Values, and how they meet the text of a document

An expression evaluates to a value. `Value.display` is what is written into a document,
`Value.describe` what a report says of it; they differ for the absent value alone.

A floating-point number is written with the fewest digits that read back, always with a point or an
exponent, so that it is never mistaken for an integer.
-/

namespace LiveSpec

/-- A value that an expression can have. Integers lie in the signed or the unsigned 64-bit range;
floating-point numbers are finite; an object that was read has its fields in the order of their
names. -/
inductive Value where
  | null
  | bool (b : Bool)
  | int (n : Int)
  | float (x : Float)
  | string (s : String)
  | array (items : List Value)
  | object (fields : List (String × Value))
deriving Inhabited

namespace Value

/-- Numbers are written positionally from `0.00001` on and below `10 ^ 16`. -/
def numberLayout : Decimal.Layout where
  leastPositional := -5
  greatestPositional := 15
  integralTail := ".0"
  exponentMark := "e"
  plusSign := "+"

/-- The text of a floating-point number. -/
def floatText (x : Float) : String := Decimal.writeFloat numberLayout x

/-- A lower-case hexadecimal digit. -/
def hexDigit (n : Nat) : Char :=
  if n < 10 then Char.ofNat (n + 48) else Char.ofNat (n + 87)

/-- A character as it stands between quotes. -/
def escaped (c : Char) : List Char :=
  if c = '"' then ['\\', '"']
  else if c = '\\' then ['\\', '\\']
  else if c = '\n' then ['\\', 'n']
  else if c = '\r' then ['\\', 'r']
  else if c = '\t' then ['\\', 't']
  else if c.toNat = 8 then ['\\', 'b']
  else if c.toNat = 12 then ['\\', 'f']
  else if c.toNat < 32 then ['\\', 'u', '0', '0', hexDigit (c.toNat / 16), hexDigit (c.toNat % 16)]
  else [c]

/-- A text between quotes. -/
def quoted (s : String) : String := .ofList ('"' :: s.toList.flatMap escaped ++ ['"'])

mutual
/-- The compact notation of a value, without blanks between its parts. -/
def text : Value → String
  | .null => "null"
  | .bool b => if b then "true" else "false"
  | .int n => toString n
  | .float x => floatText x
  | .string s => quoted s
  | .array items => "[" ++ ",".intercalate (texts items) ++ "]"
  | .object fields => "\x7b" ++ ",".intercalate (fieldTexts fields) ++ "\x7d"
/-- The compact notations of the items of an array. -/
def texts : List Value → List String
  | [] => []
  | v :: vs => text v :: texts vs
/-- The compact notations of the fields of an object. -/
def fieldTexts : List (String × Value) → List String
  | [] => []
  | (name, v) :: fs => (quoted name ++ ":" ++ text v) :: fieldTexts fs
end

/-- The text written into a document: a string as it is, nothing for the absent value. -/
def display : Value → String
  | .null => ""
  | .string s => s
  | v => v.text

/-- The text of a value that stands for the absent one. -/
def nullMarker : String := "null"

/-- The text used in reports, where the absent value is spelled out. -/
def describe : Value → String
  | .null => nullMarker
  | v => v.display

/-- The name of a value's kind. -/
def kind : Value → String
  | .null => "null"
  | .bool _ => "boolean"
  | .int _ | .float _ => "number"
  | .string _ => "string"
  | .array _ => "array"
  | .object _ => "object"

mutual
/-- Says whether two values are the same. An integer and a floating-point number never are; the two
zeros of floating point are. -/
def same : Value → Value → Bool
  | .null, .null => true
  | .bool a, .bool b => a == b
  | .int a, .int b => a == b
  | .float a, .float b => a == b
  | .string a, .string b => a == b
  | .array as, .array bs => sameItems as bs
  | .object as, .object bs => sameFields as bs
  | _, _ => false
/-- Says whether two arrays have the same items. -/
def sameItems : List Value → List Value → Bool
  | [], [] => true
  | a :: as, b :: bs => same a b && sameItems as bs
  | _, _ => false
/-- Says whether two objects have the same fields. -/
def sameFields : List (String × Value) → List (String × Value) → Bool
  | [], [] => true
  | (n, a) :: as, (m, b) :: bs => n == m && same a b && sameFields as bs
  | _, _ => false
end

/-- The field of an object; other values have none. -/
def field? (name : String) : Value → Option Value
  | .object fields => Entries.find? name fields
  | _ => none

end Value
end LiveSpec
