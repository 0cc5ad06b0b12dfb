/-!
# The fewest digits that read back

A finite double stands for every real number that rounds to it. `Decimal.shortest` picks from these
the decimal with the fewest digits; of several with equally few the one nearest to the double, and
of two equally near the one whose last digit is even. All arithmetic is exact, on naturals.
-/

namespace LiveSpec

/-- A non-negative decimal: `digits · 10 ^ exponent`. -/
structure Decimal where
  digits : Nat
  exponent : Int
deriving DecidableEq, Repr, Inhabited

namespace Decimal

/-- The magnitude of a finite double as `m · 2 ^ q`. -/
def significand (x : Float) : Nat × Int :=
  let bits := x.toBits.toNat
  let exponent : Nat := bits >>> 52 % 0x800
  let fraction : Nat := bits % 0x10000000000000
  if exponent = 0 then (fraction, -1074)
  else (fraction + 0x10000000000000, Int.ofNat exponent - 1075)

/-- Says whether the sign bit of a double is set. -/
def isNegative (x : Float) : Bool := x.toBits.toNat >>> 63 == 1

/-- The reals that round to `m · 2 ^ q`, in quarters of `2 ^ q`: the two ends, and whether they
belong to it. Below a power of two the doubles lie twice as close. -/
def roundingInterval (m : Nat) (q : Int) : Nat × Nat × Bool :=
  let low := if m = 0x10000000000000 && decide (q > -1074) then 4 * m - 1 else 4 * m - 2
  (low, 4 * m + 2, m % 2 == 0)

/-- A quarter of `2 ^ q` divided by `10 ^ k`, as a fraction of naturals. -/
def quarterOver (q k : Int) : Nat × Nat :=
  let num := (1 <<< (q - 2).toNat) * Nat.pow 10 (-k).toNat
  let den := (1 <<< (2 - q).toNat) * Nat.pow 10 k.toNat
  (num, den)

/-- The point of the grid of multiples of `10 ^ k` that reads back as `m · 2 ^ q`, if there is one.
-/
def onGrid? (m : Nat) (q k : Int) : Option Nat :=
  let (num, den) := quarterOver q k
  let (low, high, closed) := roundingInterval m q
  let inside (d : Nat) : Bool :=
    if closed then low * num ≤ d * den && d * den ≤ high * num
    else low * num < d * den && d * den < high * num
  let value := 4 * m * num
  let below := value / den
  let above := below + 1
  match inside below && below != 0, inside above with
  | true, true =>
    let toBelow := value - below * den
    let toAbove := above * den - value
    if toBelow < toAbove then some below
    else if toAbove < toBelow then some above
    else if below % 2 = 0 then some below else some above
  | true, false => some below
  | false, true => some above
  | false, false => none

/-- Takes the zeros off the end of a decimal, at most `fuel` of them. -/
def stripZeros : Nat → Decimal → Decimal
  | 0, d => d
  | fuel + 1, d =>
    if d.digits ≠ 0 ∧ d.digits % 10 = 0 then stripZeros fuel ⟨d.digits / 10, d.exponent + 1⟩ else d

/-- The exponent of the leading digit of `m · 2 ^ q`, for a positive `m`. -/
def leadingExponent (m : Nat) (q : Int) : Int :=
  let (num, den) := (m <<< q.toNat, 1 <<< (-q).toNat)
  if num ≥ den then ((num / den).repr.length : Int) - 1
  else
    -- the least `k` with `num * 10 ^ k ≥ den` lies at the quotient's length or one below it
    let k := (den / num).repr.length
    if num * Nat.pow 10 (k - 1) ≥ den then 1 - (k : Int) else -(k : Int)

/-- The first grid, from coarse to fine, that has a point which reads back. -/
def search (m : Nat) (q lead : Int) : Nat → Nat → Option Decimal
  | 0, _ => none
  | fuel + 1, count =>
    let k := lead - (count : Int) + 1
    match onGrid? m q k with
    | some d => some ⟨d, k⟩
    | none => search m q lead fuel (count + 1)

/-- The shortest decimal that reads back as the magnitude of a finite double. Seventeen digits
always suffice. -/
def shortest (x : Float) : Decimal :=
  let (m, q) := significand x
  if m = 0 then ⟨0, 0⟩
  else stripZeros 20 ((search m q (leadingExponent m q) 17 1).getD ⟨0, 0⟩)

end Decimal
end LiveSpec
