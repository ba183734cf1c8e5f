import NativeTypes.Proofs.Wire.Slots

/-! # The forms of a type

`Form t j` says that the value `j` is a form of the type `t`: a bare name, or a node with the tag
and the fields of `t`, which may stand in any order among other fields. A node does not repeat its
tag or one of its fields, and neither does a member, whose flags may be left out where they are
false.

A member is decoded from what its fields say (`decodeMember_of_fields`). -/

namespace NativeTypes.Wire

/-! ### Forms -/

/-- An object with a tag. -/
def IsNode (tag : String) (fs : List (String × Json)) (j : Json) : Prop :=
  j = .object fs ∧ HasField fs "type" (.string tag)

/-- A flag of a member, which may be left out for false. -/
def HasFlag (fs : List (String × Json)) (k : String) (b : Bool) : Prop :=
  HasField fs k (.boolean b) ∨ LacksField fs k ∧ b = false

mutual

/-- **The forms of a type.** -/
def Form : Ty → Json → Prop
  | .primitive p, j => j = .string p.name
  | .predefined p, j => j = .string p.name
  | .reference n, j => ∃ fs, IsNode "reference" fs j ∧ HasField fs "name" (.string n)
  | .array r t, j => ∃ fs e, IsNode "array" fs j ∧ HasField fs "readonly" (.boolean r) ∧
      HasField fs "element" e ∧ Form t e
  | .operator .promise t, j => ∃ fs e, IsNode "promise" fs j ∧ HasField fs "element" e ∧ Form t e
  | .operator .readonly t, j => ∃ fs e, IsNode "readonly" fs j ∧ HasField fs "element" e ∧ Form t e
  | .operator .optional t, j => ∃ fs e, IsNode "optional" fs j ∧ HasField fs "element" e ∧ Form t e
  | .withDefault t v, j => ∃ fs e, IsNode "with_default" fs j ∧ HasField fs "element" e ∧
      HasField fs "defaultValue" (.string v) ∧ Form t e
  | .function t ts, j => ∃ fs e es, IsNode "function" fs j ∧ HasField fs "returnType" e ∧
      HasField fs "argumentTypes" (.array es) ∧ Form t e ∧ ListForm ts es
  | .objectLiteral ts ms f, j => ∃ fs es os, IsNode "object_literal" fs j ∧
      HasField fs "mixins" (.array es) ∧ HasField fs "members" (.array os) ∧
      HasField fs "allMembersReadonly" (.boolean f) ∧ ListForm ts es ∧ MembersForm ms os
  | .union ts, j => ∃ fs es, IsNode "union" fs j ∧ HasField fs "elements" (.array es) ∧
      ListForm ts es
  | .enumeration p, j => ∃ fs, IsNode "enum" fs j ∧ HasField fs "element" (.string p.name)
  | .event .bubbling t, j => ∃ fs e, IsNode "BubblingEventHandler" fs j ∧
      HasField fs "element" e ∧ Form t e
  | .event .direct t, j => ∃ fs e, IsNode "DirectEventHandler" fs j ∧
      HasField fs "element" e ∧ Form t e

/-- The forms of a list of types, item by item. -/
def ListForm : List Ty → List Json → Prop
  | [], js => js = []
  | t :: ts, js => ∃ e es, js = e :: es ∧ Form t e ∧ ListForm ts es

/-- The forms of a list of members, item by item. -/
def MembersForm : List (Member Ty) → List Json → Prop
  | [], js => js = []
  | ⟨n, t, o, r⟩ :: ms, js => ∃ fs e es, js = .object fs :: es ∧ HasField fs "name" (.string n) ∧
      HasField fs "type" e ∧ HasFlag fs "optional" o ∧ HasFlag fs "readonly" r ∧ Form t e ∧
      MembersForm ms es

end

/-! ### Decoding a member -/

/-- A flag has a slot that may be empty. -/
theorem HasFlag.exists_slot {fs : List (String × Json)} {k : String} {b : Bool}
    (h : HasFlag fs k b) : ∃ x : Option Bool, x.getD false = b ∧
      (LacksField fs k ∧ x.isSome = false ∨
        ∃ v, HasField fs k v ∧ ∃ y, x = some y ∧ decodeFlag v = .ok y) := by
  rcases h with h | ⟨h, rfl⟩
  · exact ⟨some b, rfl, .inr ⟨_, h, b, rfl, rfl⟩⟩
  · exact ⟨none, rfl, .inl ⟨h, rfl⟩⟩

/-- **A member is decoded from what its fields say.** -/
theorem decodeMember_of_fields {fs : List (String × Json)} {n : String} {e : Json} {t : Ty}
    {o r : Bool} (hn : HasField fs "name" (.string n)) (he : HasField fs "type" e)
    (ho : HasFlag fs "optional" o) (hr : HasFlag fs "readonly" r) (h : decodeTy e = .ok t) :
    decodeMember (.object fs) = .ok ⟨n, t, o, r⟩ := by
  obtain ⟨x, rfl, hx⟩ := ho.exists_slot
  obtain ⟨y, rfl, hy⟩ := hr.exists_slot
  have hs : decodeMemberFields {} fs = .ok ⟨some n, some t, x, y⟩ := decodeMemberFields_eq_ok <| by
    intro f
    cases f with
    | name => exact .inr ⟨_, hn, n, rfl, rfl⟩
    | type => exact .inr ⟨e, he, t, rfl, h⟩
    | optional => exact hx
    | readonly => exact hy
  rw [decodeMember, hs]
  rfl

end NativeTypes.Wire
