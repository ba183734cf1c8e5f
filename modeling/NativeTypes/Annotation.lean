import NativeTypes.Shape

/-! # Annotations

The annotation of a type is the text that stands for it in a declaration. The parts of a composite
are written first and then wrapped in the syntax of the composite, whose operators carry their own
parentheses. Only an enumeration can be without an annotation, when its backing is neither strings
nor integers of 32 bits; the failure names the first such enumeration in the order of writing, in
which the arguments of a function come before its result, and the members of an object literal
before its mixins. -/

namespace NativeTypes

/-- A sub-tree for which there is no annotation, and the path to it. -/
structure Unwritable where
  path : Path
  variant : String
deriving DecidableEq

namespace Unwritable

/-- The message of a missing annotation. -/
def message (e : Unwritable) : String :=
  "Unrecognizable type: " ++ e.variant ++ " at " ++ e.path.text

/-- The same failure, seen from one segment further up. -/
def under (s : Segment) (e : Unwritable) : Unwritable :=
  { e with path := s :: e.path }

end Unwritable

/-- A text in round brackets. -/
def Text.parens (s : String) : String :=
  "(" ++ s ++ ")"

/-- A text in braces. -/
def Text.braces (s : String) : String :=
  "\x7b" ++ s ++ "\x7d"

/-- A name applied to arguments in angle brackets. -/
def Text.applied (name : String) (arguments : List String) : String :=
  name ++ "<" ++ String.intercalate ", " arguments ++ ">"

/-- The annotation of a wrapped type, from that of the type. -/
def Operator.annotationText : Operator → String → String
  | .promise, s => Text.applied "Promise" [s]
  | .readonly, s => Text.applied "Readonly" [s]
  | .optional, s => Text.parens (s ++ " | undefined")

/-- The annotation of an event handler, from that of what it receives. -/
def EventPhase.annotationText : EventPhase → String → String
  | .bubbling, s => Text.applied "BubblingEventHandler" [s]
  | .direct, s => Text.applied "DirectEventHandler" [s]

/-- The text of a member whose type has the given annotation. -/
def Member.text {α : Type} (m : Member α) (type : String) : String :=
  cond m.readonly "readonly " "" ++ m.name ++ cond m.optional "?" "" ++ ": " ++ type

namespace Ty

mutual

/-- **The annotation of a type.** -/
def annotationText : Ty → Except Unwritable String
  | primitive p => .ok p.annotationText
  | predefined p => .ok p.name
  | reference n => .ok n
  | array r t => do
    let s ← (annotationText t).mapError (.under .element)
    .ok (cond r "readonly " "" ++ s ++ "[]")
  | operator o t => do
    let s ← (annotationText t).mapError (.under .element)
    .ok (o.annotationText s)
  | withDefault t v => do
    let s ← (annotationText t).mapError (.under .element)
    .ok (Text.applied "WithDefault" [s, v])
  | function t ts => do
    let arguments ← annotationTexts .argument 0 ts
    let result ← (annotationText t).mapError (.under .result)
    .ok (Text.parens (String.intercalate ", " arguments) ++ " -> " ++ result)
  | objectLiteral ts ms _ => do
    let members ← memberTexts ms
    let body := Text.braces (String.intercalate ", " members)
    let mixins ← annotationTexts .mixin 0 ts
    .ok (if mixins.isEmpty then body else Text.parens (String.intercalate " & " (mixins ++ [body])))
  | union ts => do
    let alternatives ← annotationTexts .alternative 0 ts
    .ok (Text.parens (String.intercalate " | " alternatives))
  | enumeration p =>
    if p.backsEnumeration then .ok ("\"enum of " ++ p.annotationText ++ "\"")
    else .error ⟨[], "enum of " ++ p.name⟩
  | event e t => do
    let s ← (annotationText t).mapError (.under .element)
    .ok (e.annotationText s)

/-- The annotations of the items of a list, numbered on from `i`. -/
def annotationTexts (segment : Nat → Segment) (i : Nat) : List Ty → Except Unwritable (List String)
  | [] => .ok []
  | t :: ts => do
    let s ← (annotationText t).mapError (.under (segment i))
    let ss ← annotationTexts segment (i + 1) ts
    .ok (s :: ss)

/-- The texts of members. -/
def memberTexts : List (Member Ty) → Except Unwritable (List String)
  | [] => .ok []
  | ⟨n, t, o, r⟩ :: ms => do
    let s ← (annotationText t).mapError (.under (.member n))
    let ss ← memberTexts ms
    .ok (Member.text ⟨n, t, o, r⟩ s :: ss)

end

end Ty

/-- The text of a member on its own: a failure is located in the type of the member. -/
def Member.annotationText (m : Member Ty) : Except Unwritable String :=
  m.type.annotationText.map m.text

end NativeTypes
