import NativeTypes.Wire.Node

/-! # Types of values

Decodes types from JSON values. The tag of a node is looked at before its other fields, wherever it
stands; the other fields are decoded in the order of the document. Fields that a node does not have
are ignored, and a field that it has may not be repeated.

Two things are let through that are never written: a tag may be the position of the tag in the fixed
order, and a member may be a list of the values of its fields, of which the flags may be left
out. -/

namespace NativeTypes.Wire

open Json (Mismatch)

/-- The fault of a value that is not of the expected kind. -/
def wrongKind {α : Type} (j : Json) (expected : String) : Except Mismatch α :=
  .error (.wrongKind j.found expected)

/-- Decodes a text. -/
def decodeText : Json → Except Mismatch String
  | .string s => .ok s
  | j => wrongKind j expectedText

/-- Decodes a flag. -/
def decodeFlag : Json → Except Mismatch Bool
  | .boolean b => .ok b
  | j => wrongKind j expectedFlag

/-- Decodes a tag: its text, or its position. -/
def decodeTag : Json → Except Mismatch Tag
  | .string s => Tag.ofName s
  | .number (.integer (.ofNat i)) => Tag.ofIndex i
  | j => wrongKind j expectedTag

/-- The name of the field that holds the tag. -/
def tagKey : String := "type"

/-- The tag of a node, from all of its fields. -/
def tagOf (fields : List (String × Json)) : Except Mismatch Tag :=
  match fields.filter (·.1 == tagKey) with
  | [] => .error (.missingField tagKey)
  | (_, j) :: more =>
    match decodeTag j with
    | .error m => .error m
    | .ok t => if more.isEmpty then .ok t else .error (.duplicateField tagKey)

mutual

/-- **Decodes a type.** -/
def decodeTy : Json → Except Mismatch Ty
  | .string s => (Draft.named s).resolve
  | .object fields => do
    let tag ← tagOf fields
    let slots ← decodeFields tag {} fields
    let draft ← tag.build slots
    draft.resolve
  | j => wrongKind j expectedType

/-- Decodes the fields of a node that its tag knows. -/
def decodeFields (tag : Tag) (slots : Slots) : List (String × Json) → Except Mismatch Slots
  | [] => .ok slots
  | (k, v) :: rest =>
    match tag.field? k with
    | none => decodeFields tag slots rest
    | some f =>
      if slots.has f then .error (.duplicateField k)
      else
        match f with
        | .name => do
          let x ← decodeText v
          decodeFields tag { slots with name := some x } rest
        | .readonly => do
          let x ← decodeFlag v
          decodeFields tag { slots with readonly := some x } rest
        | .element => do
          let x ← decodeTy v
          decodeFields tag { slots with element := some x } rest
        | .backing => do
          let x ← decodeText v
          decodeFields tag { slots with backing := some x } rest
        | .defaultValue => do
          let x ← decodeText v
          decodeFields tag { slots with defaultValue := some x } rest
        | .returnType => do
          let x ← decodeTy v
          decodeFields tag { slots with returnType := some x } rest
        | .argumentTypes => do
          let x ← decodeList v
          decodeFields tag { slots with argumentTypes := some x } rest
        | .mixins => do
          let x ← decodeList v
          decodeFields tag { slots with mixins := some x } rest
        | .members => do
          let x ← decodeMembers v
          decodeFields tag { slots with members := some x } rest
        | .allMembersReadonly => do
          let x ← decodeFlag v
          decodeFields tag { slots with allMembersReadonly := some x } rest
        | .elements => do
          let x ← decodeList v
          decodeFields tag { slots with elements := some x } rest

/-- Decodes a list of types. -/
def decodeList : Json → Except Mismatch (List Ty)
  | .array js => decodeTys js
  | j => wrongKind j expectedList

/-- Decodes types. -/
def decodeTys : List Json → Except Mismatch (List Ty)
  | [] => .ok []
  | j :: js => do
    let t ← decodeTy j
    let ts ← decodeTys js
    return t :: ts

/-- Decodes a list of members. -/
def decodeMembers : Json → Except Mismatch (List (Member Ty))
  | .array js => decodeMemberItems js
  | j => wrongKind j expectedList

/-- Decodes members. -/
def decodeMemberItems : List Json → Except Mismatch (List (Member Ty))
  | [] => .ok []
  | j :: js => do
    let m ← decodeMember j
    let ms ← decodeMemberItems js
    return m :: ms

/-- Decodes a member. -/
def decodeMember : Json → Except Mismatch (Member Ty)
  | .object fields => do
    let slots ← decodeMemberFields {} fields
    slots.build MemberField.missing
  | .array items => decodePositions items
  | j => wrongKind j expectedMember

/-- Decodes the fields of a member. -/
def decodeMemberFields (slots : MemberSlots) :
    List (String × Json) → Except Mismatch MemberSlots
  | [] => .ok slots
  | (k, v) :: rest =>
    match MemberField.ofKey? k with
    | none => decodeMemberFields slots rest
    | some f =>
      if slots.has f then .error (.duplicateField k)
      else
        match f with
        | .name => do
          let x ← decodeText v
          decodeMemberFields { slots with name := some x } rest
        | .type => do
          let x ← decodeTy v
          decodeMemberFields { slots with type := some x } rest
        | .optional => do
          let x ← decodeFlag v
          decodeMemberFields { slots with optional := some x } rest
        | .readonly => do
          let x ← decodeFlag v
          decodeMemberFields { slots with readonly := some x } rest

/-- Decodes a member from the values of its fields. -/
def decodePositions : List Json → Except Mismatch (Member Ty)
  | [] => .error MemberField.name.cutOff
  | [n] => do
    let _ ← decodeText n
    .error MemberField.type.cutOff
  | [n, t] => do
    let n ← decodeText n
    let t ← decodeTy t
    return ⟨n, t, false, false⟩
  | [n, t, o] => do
    let n ← decodeText n
    let t ← decodeTy t
    let o ← decodeFlag o
    return ⟨n, t, o, false⟩
  | n :: t :: o :: r :: more => do
    let n ← decodeText n
    let t ← decodeTy t
    let o ← decodeFlag o
    let r ← decodeFlag r
    if more.isEmpty then return ⟨n, t, o, r⟩
    else .error (.wrongLength (4 + more.length) "4 elements in sequence")

end

/-- The draft of a node, from its tag and all of its fields. -/
def draftOf (tag : Tag) (fields : List (String × Json)) : Except Mismatch Draft := do
  let slots ← decodeFields tag {} fields
  tag.build slots

end NativeTypes.Wire
