import NativeTypes.Ty

/-! # Object literals, step by step

An object literal is built from its members, and mixins are added to it afterwards. Its flag is read
off the members at the start, since mixins do not bear on it. A member is built from its name and
its type, and is then marked.

`ObjectLiteral.ty_withMixins_ofMembers`: both steps together are `Ty.objectOf`. -/

namespace NativeTypes

namespace Member

variable {α : Type}

/-- A member that is always there and can be changed. -/
def plain (name : String) (type : α) : Member α where
  name := name
  type := type

/-- The member, now one that may be absent. -/
def asOptional (m : Member α) : Member α :=
  { m with optional := true }

/-- The member, now immutable. -/
def asReadonly (m : Member α) : Member α :=
  { m with readonly := true }

end Member

/-- The parts of an object literal. -/
structure ObjectLiteral where
  mixins : List Ty
  members : List (Member Ty)
  allReadonly : Bool

namespace ObjectLiteral

/-- The object literal of some members, without mixins. -/
def ofMembers (members : List (Member Ty)) : ObjectLiteral where
  mixins := []
  members := members
  allReadonly := Member.allReadonly members

/-- The object literal with these mixins, in place of any it has. -/
def withMixins (o : ObjectLiteral) (mixins : List Ty) : ObjectLiteral :=
  { o with mixins := mixins }

/-- An object literal as a type. -/
def ty (o : ObjectLiteral) : Ty :=
  .objectLiteral o.mixins o.members o.allReadonly

theorem ty_withMixins_ofMembers (ts : List Ty) (ms : List (Member Ty)) :
    ((ofMembers ms).withMixins ts).ty = Ty.objectOf ts ms :=
  rfl

end ObjectLiteral

end NativeTypes
