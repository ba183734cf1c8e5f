/-! # Names of the types that have no parts

Two closed families of types are written as a bare name: the *primitives* of the language and the
types the platform *predefines*. A name is looked up first among the primitives and then among the
predefined types, and the two families share no name. -/

namespace NativeTypes

/-- The primitive types. -/
inductive Primitive where
  | void
  | null
  | undefined
  | boolean
  | int32
  | string
  | float
  | double
  | object
  | numberLiterals
  | stringLiterals
deriving DecidableEq

namespace Primitive

/-- All primitives, in their fixed order. -/
def all : List Primitive :=
  [void, null, undefined, boolean, int32, string, float, double, object, numberLiterals,
    stringLiterals]

/-- The name of a primitive in a document. -/
def name : Primitive → String
  | void => "void"
  | null => "null"
  | undefined => "undefined"
  | boolean => "boolean"
  | int32 => "int32"
  | string => "string"
  | float => "float"
  | double => "double"
  | object => "object"
  | numberLiterals => "number_literals"
  | stringLiterals => "string_literals"

/-- The text of a primitive in an annotation. -/
def annotationText : Primitive → String
  | void => "void"
  | null => "null"
  | undefined => "undefined"
  | boolean => "boolean"
  | int32 => "Int32"
  | string => "string"
  | float => "float"
  | double => "double"
  | object => "object"
  | numberLiterals => "\"number literals\""
  | stringLiterals => "\"string literals\""

/-- Whether the values of a primitive are numbers. -/
def isNumeric : Primitive → Bool
  | int32 | float | double | numberLiterals => true
  | _ => false

/-- The primitive of a name. -/
def ofName? (s : String) : Option Primitive :=
  all.find? (·.name == s)

/-- **Looking up the name of a primitive finds it.** -/
@[simp]
theorem ofName?_name (p : Primitive) : ofName? p.name = some p := by
  cases p <;> decide

theorem name_of_ofName? {s : String} {p : Primitive} (h : ofName? s = some p) : p.name = s := by
  simpa using List.find?_some h

end Primitive

/-- The types the platform predefines. -/
inductive Predefined where
  | rootTag
  | imageSource
  | colorValue
  | processedColorValue
  | pointValue
  | edgeInsetsValue
  | stringish
  | unsafeObject
deriving DecidableEq

namespace Predefined

/-- All predefined types, in their fixed order. -/
def all : List Predefined :=
  [rootTag, imageSource, colorValue, processedColorValue, pointValue, edgeInsetsValue, stringish,
    unsafeObject]

/-- The name of a predefined type, in a document as in an annotation. -/
def name : Predefined → String
  | rootTag => "RootTag"
  | imageSource => "ImageSource"
  | colorValue => "ColorValue"
  | processedColorValue => "ProcessedColorValue"
  | pointValue => "PointValue"
  | edgeInsetsValue => "EdgeInsetsValue"
  | stringish => "Stringish"
  | unsafeObject => "UnsafeObject"

/-- The predefined type of a name. -/
def ofName? (s : String) : Option Predefined :=
  all.find? (·.name == s)

/-- **Looking up the name of a predefined type finds it.** -/
@[simp]
theorem ofName?_name (p : Predefined) : ofName? p.name = some p := by
  cases p <;> decide

theorem name_of_ofName? {s : String} {p : Predefined} (h : ofName? s = some p) : p.name = s := by
  simpa using List.find?_some h

/-- No predefined type has the name of a primitive. -/
theorem primitive_ofName?_name (p : Predefined) : Primitive.ofName? p.name = none := by
  cases p <;> decide

end Predefined

end NativeTypes
