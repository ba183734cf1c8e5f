import NativeTypes.Decimal.Binary64

/-! # Numbers and moments of TOML

The literals that start with a sign or a digit. Each function gives what is left after its literal,
or nothing where the text does not start with one. An integer has to fit into 64 bits, and a
floating-point number that is not spelled as an infinity may not round to the positive one. -/

namespace NativeTypes.Toml

/-- What is left after the rest of digits, between which single underscores may stand. -/
def restDigits (digit : Char → Bool) : List Char → Option (List Char)
  | '_' :: c :: r => if digit c then restDigits digit r else none
  | c :: r =>
    if digit c then restDigits digit r else if c = '_' then none else some (c :: r)
  | [] => some []

/-- What is left after digits, at least one. -/
def someDigits (digit : Char → Bool) : List Char → Option (List Char)
  | c :: r => if digit c then restDigits digit r else none
  | [] => none

/-- What is left after an optional sign. -/
def afterSign : List Char → List Char
  | '+' :: r => r
  | '-' :: r => r
  | s => s

/-- What is left after a signed decimal integer without leading zeros. -/
def afterDecimal (s : List Char) : Option (List Char) :=
  match afterSign s with
  | '0' :: r => some r
  | r => someDigits Char.isDigit r

/-- What is left after an exponent. -/
def afterExponent : List Char → Option (List Char)
  | 'e' :: r => someDigits Char.isDigit (afterSign r)
  | 'E' :: r => someDigits Char.isDigit (afterSign r)
  | _ => none

/-- What is left after a fraction, an exponent, or both. -/
def afterFraction : List Char → Option (List Char)
  | '.' :: r => (someDigits Char.isDigit r).map fun t => (afterExponent t).getD t
  | s => afterExponent s

/-- The characters that were read. -/
def consumed (s r : List Char) : List Char :=
  s.take (s.length - r.length)

/-- The value of digits in some base. -/
def digitsValue (base : Nat) (ds : List Char) : Nat :=
  ds.foldl (fun n c =>
    if c.isDigit then n * base + (c.toNat - '0'.toNat)
    else if 'a' ≤ c ∧ c ≤ 'f' then n * base + (c.toNat - 'a'.toNat + 10)
    else if 'A' ≤ c ∧ c ≤ 'F' then n * base + (c.toNat - 'A'.toNat + 10)
    else n) 0

/-- Whether an integer fits into 64 bits. -/
def fitsInt64 (i : Int) : Bool :=
  -9223372036854775808 ≤ i && i ≤ 9223372036854775807

/-- Reads an integer with a prefix for its base. -/
def basedInteger (base : Nat) (digit : Char → Bool) (s : List Char) :
    Option (Int × List Char) := do
  let r ← someDigits digit s
  let i : Int := digitsValue base (consumed s r)
  if fitsInt64 i then some (i, r) else none

/-- Whether a character is a hexadecimal digit. -/
def isHexDigit (c : Char) : Bool :=
  c.isDigit || ('a' ≤ c && c ≤ 'f') || ('A' ≤ c && c ≤ 'F')

/-- Reads an integer. -/
def integer? : List Char → Option (Int × List Char)
  | '0' :: 'x' :: r => basedInteger 16 isHexDigit r
  | '0' :: 'o' :: r => basedInteger 8 (fun c => '0' ≤ c && c ≤ '7') r
  | '0' :: 'b' :: r => basedInteger 2 (fun c => c == '0' || c == '1') r
  | s => do
    let r ← afterDecimal s
    let n : Int := digitsValue 10 (consumed s r)
    let i := if s.head? == some '-' then -n else n
    if fitsInt64 i then some (i, r) else none

/-- Whether `m · 10 ^ e` rounds to a finite floating-point number. -/
def isFinite (m : Nat) (e : Int) : Bool :=
  let size := (Nat.toDigits 10 m).length + e
  if m = 0 ∨ size < -400 then true
  else if size > 400 then false
  else (Decimal.Binary64.ofRatio (m * Decimal.pow10 e) (Decimal.pow10 (-e))).isSome

/-- Whether the literal of a floating-point number rounds to the positive infinity. -/
def isTooGreat (literal : List Char) : Bool :=
  let s := literal.filter (· ≠ '_')
  let whole := s.takeWhile fun c => c ≠ 'e' && c ≠ 'E'
  let exponent := (s.dropWhile fun c => c ≠ 'e' && c ≠ 'E').drop 1
  let fraction := (whole.dropWhile (· ≠ '.')).drop 1
  let x : Int := digitsValue 10 (exponent.filter Char.isDigit)
  let x := if exponent.head? == some '-' then -x else x
  s.head? ≠ some '-' && !isFinite (digitsValue 10 (whole.filter Char.isDigit)) (x - fraction.length)

/-- Reads a floating-point number. -/
def float? (s : List Char) : Option (List Char × List Char) :=
  match (afterDecimal s).bind afterFraction with
  | some r => if isTooGreat (consumed s r) then none else some (consumed s r, r)
  | none =>
    match afterSign s with
    | 'i' :: 'n' :: 'f' :: r => some (consumed s r, r)
    | 'n' :: 'a' :: 'n' :: r => some (consumed s r, r)
    | _ => none

/-! ### Moments -/

/-- Reads a number of exactly `n` digits. -/
def fixedDigits (n : Nat) (s : List Char) : Option (Nat × List Char) :=
  let ds := s.take n
  if ds.length = n ∧ ds.all Char.isDigit then some (digitsValue 10 ds, s.drop n) else none

/-- Reads a number of two digits between bounds. -/
def twoDigits (low high : Nat) (s : List Char) : Option (Nat × List Char) := do
  let (n, r) ← fixedDigits 2 s
  if low ≤ n ∧ n ≤ high then some (n, r) else none

/-- What is left after a character. -/
def char? (c : Char) : List Char → Option (List Char)
  | d :: r => if d = c then some r else none
  | [] => none

/-- The number of days of a month. -/
def daysIn (year month : Nat) : Nat :=
  if month = 2 then
    if year % 4 = 0 ∧ (year % 100 ≠ 0 ∨ year % 400 = 0) then 29 else 28
  else if month ∈ [4, 6, 9, 11] then 30
  else 31

/-- What is left after a date. -/
def afterDate (s : List Char) : Option (List Char) := do
  let (year, r) ← fixedDigits 4 s
  let (month, r) ← twoDigits 1 12 (← char? '-' r)
  let (_, r) ← twoDigits 1 (daysIn year month) (← char? '-' r)
  return r

/-- What is left after a time of day. -/
def afterTime (s : List Char) : Option (List Char) := do
  let (_, r) ← twoDigits 0 23 s
  let (_, r) ← twoDigits 0 59 (← char? ':' r)
  let (_, r) ← twoDigits 0 60 (← char? ':' r)
  match r with
  | '.' :: c :: t => if c.isDigit then some (t.dropWhile Char.isDigit) else some r
  | _ => some r

/-- What is left after the distance of a time from the universal one. -/
def afterOffset : List Char → Option (List Char)
  | 'Z' :: r => some r
  | 'z' :: r => some r
  | c :: r =>
    if c = '+' ∨ c = '-' then do
      let (_, r) ← twoDigits 0 23 r
      let (_, r) ← twoDigits 0 59 (← char? ':' r)
      return r
    else none
  | [] => none

/-- What is left after a date with an optional time, or after a time. -/
def afterMoment (s : List Char) : Option (List Char) :=
  match afterDate s with
  | some (c :: r) =>
    if c = 'T' ∨ c = 't' ∨ c = ' ' then
      match afterTime r with
      | some t => some ((afterOffset t).getD t)
      | none => some (c :: r)
    else some (c :: r)
  | some [] => some []
  | none => afterTime s

/-- Reads a date, a time, or both. -/
def moment? (s : List Char) : Option (List Char × List Char) :=
  (afterMoment s).map fun r => (consumed s r, r)

end NativeTypes.Toml
