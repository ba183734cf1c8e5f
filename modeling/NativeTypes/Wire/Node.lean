import NativeTypes.Json.Fault
import NativeTypes.Ty

/-! # Nodes of a document

In a document a type with parts is a *node*: an object whose field `type` holds a tag, and whose
other fields depend on the tag. Here are the tags, the fields of each, and what is gathered from the
fields while a node is read (`Slots`). A node makes a `Draft`, in which a bare name has not yet been
looked up (`Draft.resolve`). -/

namespace NativeTypes.Wire

open Json (Mismatch)

/-- The tags of nodes. -/
inductive Tag where
  | reference
  | array
  | promise
  | readonly
  | optional
  | withDefault
  | function
  | objectLiteral
  | union
  | enumeration
  | bubblingEvent
  | directEvent
deriving DecidableEq

namespace Tag

/-- All tags, in their fixed order. -/
def all : List Tag :=
  [reference, array, promise, readonly, optional, withDefault, function, objectLiteral, union,
    enumeration, bubblingEvent, directEvent]

/-- The text of a tag. -/
def name : Tag → String
  | reference => "reference"
  | array => "array"
  | promise => "promise"
  | readonly => "readonly"
  | optional => "optional"
  | withDefault => "with_default"
  | function => "function"
  | objectLiteral => "object_literal"
  | union => "union"
  | enumeration => "enum"
  | bubblingEvent => "BubblingEventHandler"
  | directEvent => "DirectEventHandler"

/-- The tag of a text. -/
def ofName (s : String) : Except Mismatch Tag :=
  match all.find? (·.name == s) with
  | some t => .ok t
  | none => .error (.unknownVariant s (all.map name))

/-- The tag of a position in the fixed order. -/
def ofIndex (i : Nat) : Except Mismatch Tag :=
  match all[i]? with
  | some t => .ok t
  | none => .error (.wrongIndex i all.length)

theorem name_injective {t u : Tag} (h : t.name = u.name) : t = u := by
  revert h; cases t <;> cases u <;> decide

@[simp]
theorem ofName_name (t : Tag) : ofName t.name = .ok t := by
  cases t <;> rfl

end Tag

/-- The fields of nodes. The field `element` holds a type in most nodes, and a name in that of an
enumeration (`backing`). -/
inductive Field where
  | name
  | readonly
  | element
  | backing
  | defaultValue
  | returnType
  | argumentTypes
  | mixins
  | members
  | allMembersReadonly
  | elements
deriving DecidableEq

/-- The text of a field. -/
def Field.key : Field → String
  | name => "name"
  | readonly => "readonly"
  | element => "element"
  | backing => "element"
  | defaultValue => "defaultValue"
  | returnType => "returnType"
  | argumentTypes => "argumentTypes"
  | mixins => "mixins"
  | members => "members"
  | allMembersReadonly => "allMembersReadonly"
  | elements => "elements"

namespace Tag

/-- The fields of a node besides its tag, in the order in which they are written. -/
def fields : Tag → List Field
  | reference => [.name]
  | array => [.readonly, .element]
  | promise | readonly | optional | bubblingEvent | directEvent => [.element]
  | withDefault => [.element, .defaultValue]
  | function => [.returnType, .argumentTypes]
  | objectLiteral => [.mixins, .members, .allMembersReadonly]
  | union => [.elements]
  | enumeration => [.backing]

/-- The field of a node with a given text. -/
def field? (t : Tag) (key : String) : Option Field :=
  t.fields.find? (·.key == key)

end Tag

/-- What was gathered from the fields of a node. -/
structure Slots where
  name : Option String := none
  readonly : Option Bool := none
  element : Option Ty := none
  backing : Option String := none
  defaultValue : Option String := none
  returnType : Option Ty := none
  argumentTypes : Option (List Ty) := none
  mixins : Option (List Ty) := none
  members : Option (List (Member Ty)) := none
  allMembersReadonly : Option Bool := none
  elements : Option (List Ty) := none

/-- Whether a field was gathered. -/
def Slots.has (s : Slots) : Field → Bool
  | .name => s.name.isSome
  | .readonly => s.readonly.isSome
  | .element => s.element.isSome
  | .backing => s.backing.isSome
  | .defaultValue => s.defaultValue.isSome
  | .returnType => s.returnType.isSome
  | .argumentTypes => s.argumentTypes.isSome
  | .mixins => s.mixins.isSome
  | .members => s.members.isSome
  | .allMembersReadonly => s.allMembersReadonly.isSome
  | .elements => s.elements.isSome

/-- A field that a node cannot do without. -/
def need {α : Type} (f : Field) : Option α → Except Mismatch α
  | some a => .ok a
  | none => .error (.missingField f.key)

/-- A type as it stands in a document: a bare name, an enumeration with the name of its backing, or
a type whose parts are known. -/
inductive Draft where
  | named (name : String)
  | enumeration (backing : String)
  | ready (t : Ty)

/-- **Looks up the name of a draft**: first among the primitives, then among the predefined
types. -/
def Draft.resolve : Draft → Except Mismatch Ty
  | named n =>
    match Primitive.ofName? n with
    | some p => .ok (.primitive p)
    | none =>
      match Predefined.ofName? n with
      | some p => .ok (.predefined p)
      | none => .error (.unknownType n)
  | enumeration n =>
    match Primitive.ofName? n with
    | some p => .ok (.enumeration p)
    | none => .error (.unknownBacking n)
  | ready t => .ok t

/-- **The draft of a node**, from its tag and what was gathered from its fields. The first field
that is missing, in the order of writing, is reported. -/
def Tag.build (t : Tag) (s : Slots) : Except Mismatch Draft :=
  match t with
  | reference => do return .ready (.reference (← need .name s.name))
  | array => do
    let r ← need .readonly s.readonly
    return .ready (.array r (← need .element s.element))
  | promise => do return .ready (.operator .promise (← need .element s.element))
  | readonly => do return .ready (.operator .readonly (← need .element s.element))
  | optional => do return .ready (.operator .optional (← need .element s.element))
  | withDefault => do
    let e ← need .element s.element
    return .ready (.withDefault e (← need .defaultValue s.defaultValue))
  | function => do
    let r ← need .returnType s.returnType
    return .ready (.function r (← need .argumentTypes s.argumentTypes))
  | objectLiteral => do
    let ts ← need .mixins s.mixins
    let ms ← need .members s.members
    return .ready (.objectLiteral ts ms (← need .allMembersReadonly s.allMembersReadonly))
  | union => do return .ready (.union (← need .elements s.elements))
  | enumeration => do return .enumeration (← need .backing s.backing)
  | bubblingEvent => do return .ready (.event .bubbling (← need .element s.element))
  | directEvent => do return .ready (.event .direct (← need .element s.element))

/-- What was gathered from a member. -/
structure MemberSlots where
  name : Option String := none
  type : Option Ty := none
  optional : Option Bool := none
  readonly : Option Bool := none

/-- The fields of a member. -/
inductive MemberField where
  | name
  | type
  | optional
  | readonly
deriving DecidableEq

namespace MemberField

/-- All fields, in the order in which they are written. -/
def all : List MemberField :=
  [name, type, optional, readonly]

/-- The text of a field. -/
def key : MemberField → String
  | name => "name"
  | type => "type"
  | optional => "optional"
  | readonly => "readonly"

/-- The field of a text. -/
def ofKey? (key : String) : Option MemberField :=
  all.find? (·.key == key)

end MemberField

/-- Whether a field was gathered. -/
def MemberSlots.has (s : MemberSlots) : MemberField → Bool
  | .name => s.name.isSome
  | .type => s.type.isSome
  | .optional => s.optional.isSome
  | .readonly => s.readonly.isSome

/-- **The member** of what was gathered: it has a name and a type, and flags that are missing are
false. `missing` is what to report about the field that is missing. -/
def MemberSlots.build (missing : MemberField → Mismatch) (s : MemberSlots) :
    Except Mismatch (Member Ty) :=
  match s.name, s.type with
  | none, _ => .error (missing .name)
  | some _, none => .error (missing .type)
  | some n, some t => .ok ⟨n, t, s.optional.getD false, s.readonly.getD false⟩

namespace MemberField

/-- The report of a missing field of a member in an object. -/
def missing (f : MemberField) : Mismatch :=
  .missingField f.key

/-- The report of a missing field of a member in a list, which ends where the field should be. -/
def cutOff (f : MemberField) : Mismatch :=
  .wrongLength (all.idxOf f) "struct MemberRepr with 4 elements"

end MemberField

/-! ### What is expected -/

/-- What is expected of a type. -/
def expectedType : String := "a type name or an object with a `type` tag"

/-- What is expected of a tag. -/
def expectedTag : String := "variant identifier"

/-- What is expected of a name or a text. -/
def expectedText : String := "a string"

/-- What is expected of a flag. -/
def expectedFlag : String := "a boolean"

/-- What is expected of a list of types or of members. -/
def expectedList : String := "a sequence"

/-- What is expected of a member. -/
def expectedMember : String := "struct MemberRepr"

/-- What is expected of a container. -/
def expectedContainer : String := "struct File"

/-- What is expected of the definitions of a container. -/
def expectedDefinitions : String := "a map"

end NativeTypes.Wire
