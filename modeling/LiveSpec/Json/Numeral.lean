import LiveSpec.Value
import LiveSpec.Numeral

/-!
# Numbers of the data notation

A number without point and exponent that fits 64 bits is an integer, every other one is
floating-point. A floating-point number is read by scaling: the digits that fit an unsigned 64-bit
word are rounded to a double once, and the result is multiplied or divided by a power of ten.
-/

namespace LiveSpec.Json

/-- A numeral being read: the digits that fitted a word, and the power of ten that is still to
apply. -/
structure Scaled where
  digits : Nat
  exponent : Int

namespace Scaled

/-- Says whether one more digit still fits the word. -/
def fits (s : Scaled) (c : Char) : Bool := 10 * s.digits + (c.toNat - 48) < 0x10000000000000000

/-- Takes one more digit. -/
def push (s : Scaled) (c : Char) : Nat := 10 * s.digits + (c.toNat - 48)

/-- Takes digits before the point, as long as they fit; of the rest only their number counts. -/
def whole (s : Scaled) : List Char → Scaled
  | [] => s
  | c :: cs =>
    if s.fits c then whole ⟨s.push c, s.exponent⟩ cs else ⟨s.digits, s.exponent + (cs.length + 1)⟩

/-- Takes digits after the point, as long as they fit; the rest is dropped. -/
def fraction (s : Scaled) : List Char → Scaled
  | [] => s
  | c :: cs => if s.fits c then fraction ⟨s.push c, s.exponent - 1⟩ cs else s

/-- Ten to the power of `n`, as the nearest double. -/
def powerOfTen (n : Nat) : Float := Float.ofScientific 1 false n

/-- Divides by powers of ten that are doubles, at most `fuel` times. -/
def shrink : Nat → Float → Nat → Float
  | 0, x, _ => x
  | fuel + 1, x, n =>
    if n ≤ 308 then x / powerOfTen n
    else if x == 0.0 then x
    else shrink fuel (x / powerOfTen 308) (n - 308)

/-- The double of a scaled numeral; none if it is beyond all doubles. -/
def toFloat? (s : Scaled) : Option Float :=
  let x := s.digits.toUInt64.toFloat
  if s.exponent ≥ 0 then
    if s.exponent > 308 then if x == 0.0 then some x else none
    else
      let y := x * powerOfTen s.exponent.toNat
      if y.isInf then none else some y
  else some (shrink 8 x (-s.exponent).toNat)

end Scaled

/-- The digits of an exponent with its sign, limited to the range that can matter. -/
def exponentOf (negative : Bool) (ds : List Char) : Int :=
  let n : Int := min (Numeral.digitsValue 0 ds) 2147483647
  if negative then -n else n

/-- The value of a numeral whose parts are known: sign, digits before the point, digits after it,
and the exponent, the last two if they were written. None is beyond all doubles. -/
def numberValue? (negative : Bool) (wholeDigits : List Char) (fractionDigits? : Option (List Char))
    (exponent? : Option Int) : Option Value :=
  let n := Numeral.digitsValue 0 wholeDigits
  let sign (x : Float) : Float := if negative then -x else x
  match fractionDigits?, exponent? with
  | none, none =>
    if !negative && n < 0x10000000000000000 then some (.int n)
    else if negative && 0 < n && n ≤ 0x8000000000000000 then some (.int (-(n : Int)))
    else (Scaled.toFloat? (Scaled.whole ⟨0, 0⟩ wholeDigits)).map fun x => .float (sign x)
  | _, _ =>
    let s := (Scaled.whole ⟨0, 0⟩ wholeDigits).fraction (fractionDigits?.getD [])
    let shifted : Scaled := ⟨s.digits, s.exponent + exponent?.getD 0⟩
    shifted.toFloat?.map fun x => .float (sign x)

end LiveSpec.Json
