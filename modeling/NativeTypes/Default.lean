import NativeTypes.Ty
import NativeTypes.Decimal.Grammar
import NativeTypes.Text.White

/-! # Default values

A default is kept as a text, and whether a text fits a type is a matter of spelling alone.
`Primitive.accepts` gives the spellings of each primitive: the words `true` and `false`, the
canonical integers of 32 bits, the decimal numerals, the quoted strings, and so on.
`Ty.acceptsDefault` looks through the wrappers of one argument and into the alternatives of a union;
types without spellings of their own take every text that is not blank. -/

namespace NativeTypes

namespace Text

/-- Whether a text, to its very end, is what follows the opening quote `q` of a string. A backslash
takes the character after it along, which may not be a line feed. -/
def closesQuote (q : Char) : List Char → Bool
  | [] => false
  | '\\' :: c :: r => c != '\n' && closesQuote q r
  | c :: r => if c == q then r.isEmpty else c != '\\' && closesQuote q r

/-- Whether a text is a string in single or in double quotes. -/
def isQuoted : List Char → Bool
  | [] => false
  | q :: r => (q == '\'' || q == '"') && closesQuote q r

/-- Whether a text opens with one brace and ends with the other. -/
def isBraced (s : List Char) : Bool :=
  s.head? == some '{' && s.getLast? == some '}'

end Text

/-- Whether an integer fits into 32 bits. -/
def fitsInt32 (i : Int) : Bool :=
  -2147483648 ≤ i && i ≤ 2147483647

/-- The texts that spell a value of a primitive. -/
def Primitive.accepts (p : Primitive) (l : String) : Bool :=
  match p with
  | .boolean => l == "true" || l == "false"
  | .int32 => Decimal.isInteger l.toList && fitsInt32 (Decimal.integerValue l.toList)
  | .float | .double | .numberLiterals => Decimal.isNumber l.toList
  | .string | .stringLiterals => l == "null" || Text.isQuoted l.toList
  | .null => l == "null"
  | .void | .undefined => l == "undefined"
  | .object => l == "null" || Text.isBraced l.toList

/-- What a spelling of a primitive is called. -/
def Primitive.spelling : Primitive → String
  | .boolean => "boolean"
  | .int32 => "int32"
  | .float | .double | .numberLiterals => "number"
  | .string | .stringLiterals => "string"
  | .null => "null"
  | .void | .undefined => "undefined"
  | .object => "object"

/-- Whether an enumeration may be backed by a primitive. -/
def Primitive.backsEnumeration : Primitive → Bool
  | .string | .int32 => true
  | _ => false

namespace Ty

mutual

/-- Whether a text, blank or not, spells a value of a type. -/
def accepts (l : String) : Ty → Bool
  | operator _ t => accepts l t
  | primitive p => p.accepts l
  | enumeration p => !p.backsEnumeration || p.accepts l
  | union ts => acceptsAny l ts
  | predefined _ | reference _ | array .. | withDefault .. | function .. | objectLiteral .. |
    event .. => true

/-- Whether a text spells a value of one of the types. -/
def acceptsAny (l : String) : List Ty → Bool
  | [] => false
  | t :: ts => accepts l t || acceptsAny l ts

end

/-- **Whether a text can be the default of a type.** -/
def acceptsDefault (t : Ty) (l : String) : Bool :=
  !Text.isBlank l && t.accepts l

/-- What a default of a type is expected to be. -/
def expectedDefault (t : Ty) : String :=
  match t.underOperators with
  | primitive p => p.spelling
  | enumeration .int32 => "int32 enum"
  | enumeration _ => "string enum"
  | union _ => "union member"
  | _ => "non-empty"

theorem acceptsAny_eq_any (l : String) (ts : List Ty) : acceptsAny l ts = ts.any (accepts l) := by
  induction ts with
  | nil => rfl
  | cons t ts ih => simp [acceptsAny, ih]

/-- A wrapper does not change which texts a type takes. -/
@[simp]
theorem acceptsDefault_operator (o : Operator) (t : Ty) (l : String) :
    (operator o t).acceptsDefault l = t.acceptsDefault l := by
  simp [acceptsDefault, accepts]

end Ty

end NativeTypes
