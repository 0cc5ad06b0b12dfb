import LiveSpec.Decimal.Shortest

/-!
# Writing a decimal

Which digits a number has is one question (`LiveSpec.Decimal.Shortest`), how they are laid out is
another. `Layout` holds the decisions of the second.
-/

namespace LiveSpec.Decimal

/-- The decisions of a notation for floating-point numbers. -/
structure Layout where
  /-- The least exponent of the leading digit that is written positionally. -/
  leastPositional : Int
  /-- The greatest exponent of the leading digit that is written positionally. -/
  greatestPositional : Int
  /-- What follows an integral number that is written positionally. -/
  integralTail : String
  /-- The mark between the digits and the exponent. -/
  exponentMark : String
  /-- The sign of an exponent that is not negative. -/
  plusSign : String

/-- The digits of a number, positionally. -/
def positional (l : Layout) (ds : List Char) (exponent : Int) : String :=
  if exponent ≥ 0 then .ofList (ds ++ List.replicate exponent.toNat '0') ++ l.integralTail
  else
    let places := (-exponent).toNat
    if places < ds.length then
      .ofList (ds.take (ds.length - places)) ++ "." ++ .ofList (ds.drop (ds.length - places))
    else "0." ++ .ofList (List.replicate (places - ds.length) '0' ++ ds)

/-- The digits of a number with an exponent, one digit before the point. -/
def scientific (l : Layout) (ds : List Char) (lead : Int) : String :=
  let mantissa :=
    match ds with
    | [] => "0"
    | [d] => .ofList [d]
    | d :: rest => .ofList (d :: '.' :: rest)
  let power := if lead < 0 then "-" ++ toString lead.natAbs else l.plusSign ++ toString lead.natAbs
  mantissa ++ l.exponentMark ++ power

/-- Writes a decimal. -/
def write (l : Layout) (d : Decimal) : String :=
  let ds := (toString d.digits).toList
  let lead := d.exponent + (ds.length : Int) - 1
  if d.digits = 0 then "0" ++ l.integralTail
  else if l.leastPositional ≤ lead ∧ lead ≤ l.greatestPositional then positional l ds d.exponent
  else scientific l ds lead

/-- Writes a finite double, with its sign. -/
def writeFloat (l : Layout) (x : Float) : String :=
  (if isNegative x then "-" else "") ++ write l (shortest x)

end LiveSpec.Decimal
