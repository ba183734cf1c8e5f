import NativeTypes.Decimal.Shortest
import NativeTypes.Text.Quoted

/-! # JSON values

Values as they are read from a text. The fields of an object keep their order and may repeat a name.
A number without fraction and exponent that fits into 64 bits is an integer, and every other number
is rounded to a floating-point number. -/

namespace NativeTypes

namespace Json

/-- Numbers. -/
inductive Number where
  | integer (i : Int)
  | real (negative : Bool) (x : Decimal.Binary64)

end Json

/-- JSON values. -/
inductive Json where
  | null
  | boolean (b : Bool)
  | number (n : Json.Number)
  | string (s : String)
  | array (items : List Json)
  | object (fields : List (String × Json))

namespace Json

/-- What is found where something else is expected. -/
inductive Found where
  | null
  | boolean (b : Bool)
  | number (n : Number)
  | string (s : String)
  | sequence
  | map

/-- What a value is found to be. -/
def found : Json → Found
  | null => .null
  | boolean b => .boolean b
  | number n => .number n
  | string s => .string s
  | array _ => .sequence
  | object _ => .map

/-- Floating-point numbers in messages: positional from five places after the point to sixteen
digits before it. -/
def realLayout : Decimal.Layout := ⟨-5, 15⟩

/-- A text in backticks. -/
def ticked (s : String) : String :=
  "`" ++ s ++ "`"

/-- The text of an integer. -/
def integerText (i : Int) : String :=
  cond (decide (i < 0)) "-" "" ++ i.natAbs.repr

/-- The description of what is found. -/
def Found.text : Found → String
  | null => "null"
  | boolean b => "boolean " ++ ticked (cond b "true" "false")
  | number (.integer i) => "integer " ++ ticked (integerText i)
  | number (.real s x) => "floating point " ++ ticked (realLayout.writeSigned s x)
  | string s => "string " ++ Text.quote s
  | sequence => "sequence"
  | map => "map"

end Json

end NativeTypes
