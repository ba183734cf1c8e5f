import NativeTypes.Container
import NativeTypes.Json.Writer
import NativeTypes.Wire.Node

/-! # Writing a document

The canonical document of a type: a bare name, or a node with its tag first and its fields in their
fixed order. Members always carry both of their flags. -/

namespace NativeTypes

open Wire

/-- A node with its tag and its fields. -/
def Wire.Tag.node (t : Tag) (values : List Json) : Json :=
  .object (("type", .string t.name) :: (t.fields.map Field.key).zip values)

namespace Ty

mutual

/-- **The document of a type.** -/
def toJson : Ty → Json
  | primitive p => .string p.name
  | predefined p => .string p.name
  | reference n => Tag.reference.node [.string n]
  | array r t => Tag.array.node [.boolean r, toJson t]
  | operator .promise t => Tag.promise.node [toJson t]
  | operator .readonly t => Tag.readonly.node [toJson t]
  | operator .optional t => Tag.optional.node [toJson t]
  | withDefault t v => Tag.withDefault.node [toJson t, .string v]
  | function t ts => Tag.function.node [toJson t, .array (listToJson ts)]
  | objectLiteral ts ms f =>
    Tag.objectLiteral.node [.array (listToJson ts), .array (membersToJson ms), .boolean f]
  | union ts => Tag.union.node [.array (listToJson ts)]
  | enumeration p => Tag.enumeration.node [.string p.name]
  | event .bubbling t => Tag.bubblingEvent.node [toJson t]
  | event .direct t => Tag.directEvent.node [toJson t]

/-- The documents of types. -/
def listToJson : List Ty → List Json
  | [] => []
  | t :: ts => toJson t :: listToJson ts

/-- The documents of members. -/
def membersToJson : List (Member Ty) → List Json
  | [] => []
  | ⟨n, t, o, r⟩ :: ms =>
    .object [("name", .string n), ("type", toJson t), ("optional", .boolean o),
      ("readonly", .boolean r)] :: membersToJson ms

end

/-- The compact text of the document of a type. -/
def wireText (t : Ty) : String :=
  t.toJson.text .compact

end Ty

namespace Container

/-- The document of a container. -/
def toJson (c : Container) : Json :=
  .object [("types", .object (c.entries.map fun e => (e.1, e.2.toJson)))]

/-- The text of the document of a container, spread over lines. -/
def wireText (c : Container) : String :=
  c.toJson.text .pretty

end Container

end NativeTypes
