/-! # Paths into a type

A *segment* names one way from a composite to one of its parts, and a *path* is the list of segments
from the root of a type down to one of its sub-trees. The text of a path is `$` for the root,
followed by the texts of its segments. -/

namespace NativeTypes

/-- One step from a composite to a part of it. -/
inductive Segment where
  | element
  | result
  | argument (index : Nat)
  | alternative (index : Nat)
  | mixin (index : Nat)
  | member (name : String)
deriving DecidableEq

/-- The text of a segment. -/
def Segment.text : Segment → String
  | .element => ".element"
  | .result => ".returnType"
  | .argument i => ".argumentTypes[" ++ i.repr ++ "]"
  | .alternative i => ".elements[" ++ i.repr ++ "]"
  | .mixin i => ".mixins[" ++ i.repr ++ "]"
  | .member n => ".members." ++ n

/-- The segments from the root of a type to one of its sub-trees. -/
abbrev Path := List Segment

namespace Path

/-- The texts of the segments, without a sign for the root. -/
def trail (p : Path) : String :=
  String.join (p.map Segment.text)

/-- The text of a path. -/
def text (p : Path) : String :=
  "$" ++ p.trail

end Path

end NativeTypes
