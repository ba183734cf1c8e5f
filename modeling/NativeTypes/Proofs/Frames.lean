import NativeTypes.Ty

/-! # Types with a hole

A `Ty.Frame` is a type with a hole where one of the types that it is made of stands, and
`Frame.fill` puts a type there. -/

namespace NativeTypes.Ty

/-- A type with a hole in the place of one of the types that it is made of. -/
inductive Frame where
  | array (readonly : Bool)
  | operator (o : Operator)
  | withDefault (value : String)
  | result (argumentTypes : List Ty)
  | argument (returnType : Ty) (left right : List Ty)
  | mixin (left right : List Ty) (members : List (Member Ty)) (allMembersReadonly : Bool)
  | member (mixins : List Ty) (left right : List (Member Ty)) (name : String)
      (optional readonly allMembersReadonly : Bool)
  | alternative (left right : List Ty)
  | event (e : EventPhase)

/-- The type with another one in its hole. -/
def Frame.fill : Frame → Ty → Ty
  | array r, t => .array r t
  | operator o, t => .operator o t
  | withDefault v, t => .withDefault t v
  | result ts, t => .function t ts
  | argument u left right, t => .function u (left ++ t :: right)
  | mixin left right ms f, t => .objectLiteral (left ++ t :: right) ms f
  | member ts left right n o r f, t => .objectLiteral ts (left ++ ⟨n, t, o, r⟩ :: right) f
  | alternative left right, t => .union (left ++ t :: right)
  | event e, t => .event e t

end NativeTypes.Ty
