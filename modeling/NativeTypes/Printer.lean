import NativeTypes.Annotation

/-! # Printing a type

A printer writes the annotation of a type, and unless it is told otherwise it first looks for errors
of shape. -/

namespace NativeTypes

/-- Why a type was not printed. -/
inductive PrintError where
  | shape (e : ShapeError)
  | unwritable (e : Unwritable)
deriving DecidableEq

namespace PrintError

/-- The message of a failure to print. -/
def message : PrintError → String
  | shape e => "Invalid shape: " ++ e.message
  | unwritable e => e.message

/-- The path to the sub-tree that a failure to print is about. -/
def path : PrintError → Path
  | shape e => e.path
  | unwritable e => e.path

end PrintError

/-- A printer of types: `checksShape` says whether it refuses ill-shaped ones. -/
structure Printer where
  checksShape : Bool := true
deriving DecidableEq

namespace Printer

/-- **The annotation of a type, or why there is none.** -/
def print (p : Printer) (t : Ty) : Except PrintError String :=
  match if p.checksShape then t.shapeError? else none with
  | some e => .error (.shape e)
  | none => t.annotationText.mapError .unwritable

end Printer

end NativeTypes
