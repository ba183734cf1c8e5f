/-! # Floating-point numbers of 64 bits

The non-negative finite numbers of the binary format of 64 bits, as `m · 2 ^ e` with `m < 2 ^ 53`
and `-1074 ≤ e`, where `m` is below `2 ^ 52` only if `e = -1074`. A ratio of natural numbers is
rounded to the nearest of them, and to the one with an even `m` where two are equally near. A sign
is kept apart from its number. -/

namespace NativeTypes.Decimal

/-- The power `2 ^ i`; it is one for a negative `i`. -/
def pow2 (i : Int) : Nat :=
  Nat.pow 2 i.toNat

/-- The power `10 ^ i`; it is one for a negative `i`. -/
def pow10 (i : Int) : Nat :=
  Nat.pow 10 i.toNat

/-- The quotient of two natural numbers, rounded to the nearest, of two equally near to the even. -/
def divNearest (n d : Nat) : Nat :=
  let q := n / d
  let r := 2 * (n % d)
  if r < d ∨ (r = d ∧ q % 2 = 0) then q else q + 1

/-- The number `m · 2 ^ e`. -/
structure Binary64 where
  m : Nat
  e : Int
deriving DecidableEq

namespace Binary64

/-- The least exponent. -/
def minExponent : Int := -1074

/-- The greatest exponent. -/
def maxExponent : Int := 971

/-- Zero. -/
def zero : Binary64 := ⟨0, minExponent⟩

/-- Whether a number is zero. -/
def isZero (x : Binary64) : Bool :=
  x.m == 0

/-- The greatest `k` with `2 ^ k ≤ n / d`, for positive `n` and `d`. -/
def ratioLog2 (n d : Nat) : Int :=
  let k : Int := n.log2 - d.log2
  if d * pow2 k ≤ n * pow2 (-k) then k else k - 1

/-- **The number nearest to `n / d`**, or nothing where that is too great. -/
def ofRatio (n d : Nat) : Option Binary64 :=
  if n = 0 then
    some zero
  else
    let e := max (ratioLog2 n d - 52) minExponent
    let m := divNearest (n * pow2 (-e)) (d * pow2 e)
    let x : Binary64 := if m = pow2 53 then ⟨pow2 52, e + 1⟩ else ⟨m, e⟩
    if x.e ≤ maxExponent then some x else none

/-- The number nearest to a natural number. -/
def ofNat? (n : Nat) : Option Binary64 :=
  ofRatio n 1

/-- The rounded product. -/
def mul? (x y : Binary64) : Option Binary64 :=
  ofRatio (x.m * y.m * pow2 (x.e + y.e)) (pow2 (-(x.e + y.e)))

/-- The rounded quotient by a number that is not zero. -/
def div? (x y : Binary64) : Option Binary64 :=
  ofRatio (x.m * pow2 (x.e - y.e)) (y.m * pow2 (y.e - x.e))

end Binary64

end NativeTypes.Decimal
