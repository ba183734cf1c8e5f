import NativeTypes.Json.Value

/-! # Faults in a text

A text is at fault in one of two ways. It is *malformed* where it is no JSON, and it is *mismatched*
where it is JSON but not what the reader expects there. A malformed text is at fault at a definite
place. A mismatch is noticed after the fact: it floats, and settles where the innermost value that
was being read ends. A mismatch outside of every value never settles.

While a text is being read, a place is the number of bytes left behind it. `Place.after` turns the
number of bytes before it into a line and a column, both of which count bytes.

A mismatch may quote a name last, and a name may end like a place. Such an ending is taken at its
word (`takePlace`): it is the place of the mismatch, unless it names line zero. -/

namespace NativeTypes.Json

/-! ### Places -/

/-- The number of bytes of a text. -/
def byteLength (s : List Char) : Nat :=
  s.foldr (fun c n => c.utf8Size + n) 0

/-- A line, counted from one, and a number of bytes on it. -/
structure Place where
  line : Nat
  column : Nat
deriving DecidableEq

namespace Place

/-- The place that lies a number of bytes further into a text. -/
def advance (p : Place) : List Char → Nat → Place
  | [], _ => p
  | c :: r, n =>
    if n < c.utf8Size then ⟨p.line, p.column + n⟩
    else advance (if c = '\n' then ⟨p.line + 1, 0⟩ else ⟨p.line, p.column + c.utf8Size⟩) r
      (n - c.utf8Size)

/-- The place after the first `n` bytes of a text. -/
def after (text : List Char) (n : Nat) : Place :=
  advance ⟨1, 0⟩ text n

/-- The place before the last `n` bytes of a text. -/
def before (text : List Char) (n : Nat) : Place :=
  after text (byteLength text - n)

/-- The text of a place. -/
def text (p : Place) : String :=
  " at line " ++ p.line.repr ++ " column " ++ p.column.repr

end Place

/-! ### Malformed texts -/

/-- Where a text is no JSON. -/
inductive Malformed where
  | valueEnds
  | listEnds
  | objectEnds
  | stringEnds
  | valueExpected
  | wordExpected
  | listGoesOn
  | objectGoesOn
  | colonExpected
  | keyExpected
  | trailingComma
  | trailingText
  | invalidNumber
  | numberTooGreat
  | controlCharacter
  | invalidEscape
  | loneSurrogate
  | surrogateEnds
  | tooDeep
deriving DecidableEq

namespace Malformed

/-- The description of a malformed text. -/
def text : Malformed → String
  | valueEnds => "EOF while parsing a value"
  | listEnds => "EOF while parsing a list"
  | objectEnds => "EOF while parsing an object"
  | stringEnds => "EOF while parsing a string"
  | valueExpected => "expected value"
  | wordExpected => "expected ident"
  | listGoesOn => "expected `,` or `]`"
  | objectGoesOn => "expected `,` or `\x7d`"
  | colonExpected => "expected `:`"
  | keyExpected => "key must be a string"
  | trailingComma => "trailing comma"
  | trailingText => "trailing characters"
  | invalidNumber => "invalid number"
  | numberTooGreat => "number out of range"
  | controlCharacter => "control character (\\u0000-\\u001F) found while parsing a string"
  | invalidEscape => "invalid escape"
  | loneSurrogate => "lone leading surrogate in hex escape"
  | surrogateEnds => "unexpected end of hex escape"
  | tooDeep => "recursion limit exceeded"

/-- Whether a text is malformed only because it ends too soon. -/
def isEarlyEnd : Malformed → Bool
  | valueEnds | listEnds | objectEnds | stringEnds => true
  | _ => false

end Malformed

/-! ### Mismatches -/

/-- How a value is not what is expected. -/
inductive Mismatch where
  | wrongKind (found : Found) (expected : String)
  | wrongIndex (index : Int) (variants : Nat)
  | wrongLength (length : Nat) (expected : String)
  | unknownVariant (name : String) (known : List String)
  | missingField (name : String)
  | duplicateField (name : String)
  | unknownType (name : String)
  | unknownBacking (name : String)

namespace Mismatch

/-- The description of a mismatch. -/
def text : Mismatch → String
  | wrongKind found expected => "invalid type: " ++ found.text ++ ", expected " ++ expected
  | wrongIndex i n =>
    "invalid value: " ++ (Found.number (.integer i)).text ++
      ", expected variant index 0 <= i < " ++ n.repr
  | wrongLength n expected => "invalid length " ++ n.repr ++ ", expected " ++ expected
  | unknownVariant name known =>
    "unknown variant " ++ ticked name ++ ", expected one of " ++
      String.intercalate ", " (known.map ticked)
  | missingField name => "missing field " ++ ticked name
  | duplicateField name => "duplicate field " ++ ticked name
  | unknownType name => "Unknown type name: " ++ name
  | unknownBacking name => "Unknown enum element: " ++ name

end Mismatch

/-- A fault that a reader meets: `left` is the number of bytes left behind its place, and `rest` is
what is left of the text where a floating mismatch was noticed. -/
inductive Fault where
  | malformed (cause : Malformed) (left : Nat)
  | settled (cause : Mismatch) (left : Nat)
  | floating (cause : Mismatch) (rest : List Char)

namespace Fault

/-- Settles a floating mismatch, after the reader has moved on by `move`. -/
def settle (move : List Char → List Char) : Fault → Fault
  | floating cause rest => settled cause (byteLength (move rest))
  | f => f

end Fault

/-! ### The reported fault -/

/-- Why a text was not read. -/
inductive DecodeError where
  | malformed (cause : Malformed) (place : Place)
  | mismatch (cause : Mismatch) (place : Option Place)

/-- A fault, placed in the text in which it was met. -/
def Fault.report (text : List Char) : Fault → DecodeError
  | malformed cause left => .malformed cause (.before text left)
  | settled cause left => .mismatch cause (some (.before text left))
  | floating cause _ => .mismatch cause none

/-- What comes before and what comes after the last occurrence of `w`. -/
def splitLast (w : List Char) : List Char → Option (List Char × List Char)
  | [] => none
  | c :: r =>
    match splitLast w r with
    | some (a, b) => some (c :: a, b)
    | none => if w.isPrefixOf (c :: r) then some ([], (c :: r).drop w.length) else none

/-- The value of a numeral without sign, if it fits into 64 bits. -/
def natOfDigits? (ds : List Char) : Option Nat :=
  let n := Nat.ofDigitChars 10 ds 0
  if ds ≠ [] ∧ ds.all Char.isDigit ∧ n < UInt64.size then some n else none

/-- Takes the text of a place off the end of a text. -/
def takePlace (s : List Char) : Option (List Char × Place) := do
  let (a, b) ← splitLast " at line ".toList s
  let line := b.takeWhile Char.isDigit
  let r := b.dropWhile Char.isDigit
  if " column ".toList.isPrefixOf r then
    return (a, ⟨← natOfDigits? line, ← natOfDigits? (r.drop 8)⟩)
  else
    none

/-- The message of a text, given the place that the reader knows. -/
def placedMessage (s : String) (known : Option Place) : String :=
  match takePlace s.toList with
  | some (a, own) =>
    String.ofList a ++
      if own.line ≠ 0 then own.text else known.elim "" Place.text
  | none => s ++ known.elim "" Place.text

namespace DecodeError

/-- The message of a fault. -/
def message : DecodeError → String
  | malformed cause place => cause.text ++ place.text
  | mismatch cause place => placedMessage cause.text place

end DecodeError

end NativeTypes.Json
