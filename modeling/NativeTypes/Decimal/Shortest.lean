import NativeTypes.Decimal.Binary64

/-! # The shortest decimal of a floating-point number

A decimal reads back as a floating-point number if it lies between the midpoints to the two
neighbours of the number; the midpoints count where the number is even. `shortest` goes through the
decimal grids from the coarse to the fine and takes, on the first one with a point in that interval,
the point nearest to the number: no decimal with fewer digits reads back. -/

namespace NativeTypes.Decimal

/-- The decimal `c · 10 ^ p`. -/
structure Point where
  c : Nat
  p : Int
deriving DecidableEq

namespace Point

/-- The decimal with no zero at the end of `c`. -/
def trim (x : Point) : Point :=
  if h : x.c ≠ 0 ∧ x.c % 10 = 0 then trim ⟨x.c / 10, x.p + 1⟩ else x
termination_by x.c
decreasing_by omega

end Point

namespace Binary64

/-- Compares `k / 4` units in the last place of a number with a decimal: both sides are scaled to
natural numbers. -/
def quarterUnits (x : Binary64) (k : Nat) (d : Point) : Nat × Nat :=
  (k * pow2 (x.e - 2) * pow10 (-d.p), d.c * pow2 (2 - x.e) * pow10 d.p)

/-- The distance, in quarters of a unit, to the midpoint below a number; it is halved where the
numbers below lie closer together. -/
def quartersBelow (x : Binary64) : Nat :=
  if x.m = pow2 52 ∧ x.e ≠ minExponent then 1 else 2

/-- Whether a decimal reads back as a number. -/
def readsBack (x : Binary64) (d : Point) : Bool :=
  let low := x.quarterUnits (4 * x.m - x.quartersBelow) d
  let high := x.quarterUnits (4 * x.m + 2) d
  if x.m % 2 = 0 then low.1 ≤ low.2 && high.2 ≤ high.1 else low.1 < low.2 && high.2 < high.1

/-- The nearest of the points of the grid `10 ^ p` that read back, of two equally near ones the
even. -/
def onGrid? (x : Binary64) (p : Int) : Option Point :=
  let (n, d) := x.quarterUnits (4 * x.m) ⟨1, p⟩
  let c := n / d
  match x.readsBack ⟨c, p⟩, x.readsBack ⟨c + 1, p⟩ with
  | true, true => some ⟨divNearest n d, p⟩
  | true, false => some ⟨c, p⟩
  | false, true => some ⟨c + 1, p⟩
  | false, false => none

/-- **The shortest decimal that reads back** as a number that is not zero. -/
def shortest (x : Binary64) : Point :=
  (((List.range 650).findSome? fun k : Nat => x.onGrid? (309 - k)).getD ⟨0, 0⟩).trim

end Binary64

/-- How decimals are written: the scientific exponents for which no exponent is written, from
`first` to `last`. -/
structure Layout where
  first : Int
  last : Int

namespace Layout

/-- A fraction point and the digits after it, at least one. -/
def fraction (digits : String) : String :=
  "." ++ if digits.isEmpty then "0" else digits

/-- The text of a decimal: positional with a fraction where the exponent allows it, and otherwise
one digit, the others as a fraction if there are any, and a signed exponent. -/
def write (l : Layout) (d : Point) : String :=
  let digits := d.c.repr.toList
  let e : Int := d.p + digits.length - 1
  if l.first ≤ e ∧ e ≤ l.last then
    if 0 ≤ e then
      let (whole, part) := (digits ++ List.replicate d.p.toNat '0').splitAt (e + 1).toNat
      String.ofList whole ++ fraction (String.ofList part)
    else
      "0" ++ fraction (String.ofList (List.replicate (-e - 1).toNat '0' ++ digits))
  else
    let tail := digits.drop 1
    String.ofList (digits.take 1) ++
      (if tail.isEmpty then "" else fraction (String.ofList tail)) ++
      "e" ++ (if e < 0 then "-" else "+") ++ e.natAbs.repr

end Layout

/-- The text of a signed floating-point number. -/
def Layout.writeSigned (l : Layout) (negative : Bool) (x : Binary64) : String :=
  cond negative "-" "" ++ l.write (if x.isZero then ⟨0, 0⟩ else x.shortest)

end NativeTypes.Decimal
