/-! # Decimal numerals

The grammar of signed decimal numerals: an optional minus sign, an integer part without leading
zeros, an optional fraction, and an optional exponent with an optional sign. Each part is a function
that takes the part off the front of a text and gives the rest, or nothing where the part is broken
off; a text is a numeral when the parts together leave nothing. -/

namespace NativeTypes.Decimal

/-- The rest after an optional minus sign. -/
def afterMinus : List Char → List Char
  | '-' :: r => r
  | s => s

/-- The rest after one or more digits. -/
def afterDigits : List Char → Option (List Char)
  | [] => none
  | c :: r => if c.isDigit then some (r.dropWhile Char.isDigit) else none

/-- The rest after an integer part: a lone zero, or digits that start with another one. -/
def afterInteger : List Char → Option (List Char)
  | '0' :: r => some r
  | s => afterDigits s

/-- The rest after an optional fraction. -/
def afterFraction : List Char → Option (List Char)
  | '.' :: r => afterDigits r
  | s => some s

/-- The rest after an optional sign. -/
def afterSign : List Char → List Char
  | '+' :: r => r
  | '-' :: r => r
  | s => s

/-- The rest after an optional exponent. -/
def afterExponent : List Char → Option (List Char)
  | 'e' :: r => afterDigits (afterSign r)
  | 'E' :: r => afterDigits (afterSign r)
  | s => some s

/-- Whether a text is an integer numeral. -/
def isInteger (s : List Char) : Bool :=
  afterInteger (afterMinus s) == some []

/-- Whether a text is a numeral. -/
def isNumber (s : List Char) : Bool :=
  ((afterInteger (afterMinus s)).bind afterFraction).bind afterExponent == some []

/-- The value of an integer numeral. -/
def integerValue : List Char → Int
  | '-' :: r => -(Nat.ofDigitChars 10 r 0 : Nat)
  | s => (Nat.ofDigitChars 10 s 0 : Nat)

/-- An integer numeral is a numeral. -/
theorem isNumber_of_isInteger {s : List Char} (h : isInteger s = true) : isNumber s = true := by
  simp_all [isInteger, isNumber, afterFraction, afterExponent]

end NativeTypes.Decimal
