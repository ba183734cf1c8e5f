import NativeTypes.Name

/-! # Types of a native module interface

A type is a closed algebra: bare names, references to other definitions, and composites over them.
References are never followed, so a type is a finite tree. Nothing in `Ty` forbids an ill-shaped
tree, such as a union of one element: the rules of shape are separate.

`Ty.objectOf` is the one constructor that computes: it sets the flag of an object literal to what
its members say. -/

namespace NativeTypes

/-- The wrappers of one argument. -/
inductive Operator where
  | promise
  | readonly
  | optional
deriving DecidableEq

/-- The two phases in which an event reaches its handler. -/
inductive EventPhase where
  | bubbling
  | direct
deriving DecidableEq

/-- A named field of an object literal; it may be absent, and it may be immutable. -/
structure Member (α : Type) where
  name : String
  type : α
  optional : Bool := false
  readonly : Bool := false
deriving DecidableEq

/-- Types. The default of a `withDefault` is kept as the text it was written with, and
`allReadonly` is what an object literal declares about its members. -/
inductive Ty where
  | primitive (p : Primitive)
  | predefined (p : Predefined)
  | reference (name : String)
  | array (readonly : Bool) (element : Ty)
  | operator (op : Operator) (element : Ty)
  | withDefault (element : Ty) (value : String)
  | function (result : Ty) (arguments : List Ty)
  | objectLiteral (mixins : List Ty) (members : List (Member Ty)) (allReadonly : Bool)
  | union (elements : List Ty)
  | enumeration (backing : Primitive)
  | event (phase : EventPhase) (element : Ty)

/-- Whether every member is immutable; of no members, all are. -/
def Member.allReadonly {α : Type} (members : List (Member α)) : Bool :=
  members.all (·.readonly)

namespace Ty

/-- An object literal whose flag agrees with its members. -/
def objectOf (mixins : List Ty) (members : List (Member Ty)) : Ty :=
  .objectLiteral mixins members (Member.allReadonly members)

/-- The diagnostic name of the kind of a type. -/
def kind : Ty → String
  | primitive _ => "primitive"
  | predefined _ => "predefined"
  | reference _ => "reference"
  | array .. => "array"
  | operator .promise _ => "promise"
  | operator .readonly _ => "readonly"
  | operator .optional _ => "optional"
  | withDefault .. => "with_default"
  | function .. => "function"
  | objectLiteral .. => "object_literal"
  | union _ => "union"
  | enumeration _ => "enum"
  | event .bubbling _ => "BubblingEventHandler"
  | event .direct _ => "DirectEventHandler"

/-- Whether the outermost constructor is the optional wrapper. -/
def isOptional : Ty → Bool
  | operator .optional _ => true
  | _ => false

/-- The type under all outer wrappers of one argument. -/
def underOperators : Ty → Ty
  | operator _ t => t.underOperators
  | t => t

/-! ### Structural equality -/

mutual

/-- Structural equality of types. -/
def eqb : Ty → Ty → Bool
  | primitive p, primitive q => p == q
  | predefined p, predefined q => p == q
  | reference m, reference n => m == n
  | array r t, array r' t' => r == r' && eqb t t'
  | operator o t, operator o' t' => o == o' && eqb t t'
  | withDefault t v, withDefault t' v' => eqb t t' && v == v'
  | function t ts, function t' ts' => eqb t t' && eqbList ts ts'
  | objectLiteral ts ms f, objectLiteral ts' ms' f' =>
    eqbList ts ts' && eqbMembers ms ms' && f == f'
  | union ts, union ts' => eqbList ts ts'
  | enumeration p, enumeration q => p == q
  | event e t, event e' t' => e == e' && eqb t t'
  | _, _ => false

/-- Structural equality of lists of types. -/
def eqbList : List Ty → List Ty → Bool
  | [], [] => true
  | t :: ts, t' :: ts' => eqb t t' && eqbList ts ts'
  | _, _ => false

/-- Structural equality of lists of members. -/
def eqbMembers : List (Member Ty) → List (Member Ty) → Bool
  | [], [] => true
  | ⟨n, t, o, r⟩ :: ms, ⟨n', t', o', r'⟩ :: ms' =>
    n == n' && eqb t t' && o == o' && r == r' && eqbMembers ms ms'
  | _, _ => false

end

mutual

theorem eqb_iff : ∀ t u : Ty, eqb t u = true ↔ t = u
  | primitive p, u => by cases u <;> simp [eqb]
  | predefined p, u => by cases u <;> simp [eqb]
  | reference n, u => by cases u <;> simp [eqb]
  | array r t, u => by cases u <;> simp [eqb, eqb_iff t]
  | operator o t, u => by cases u <;> simp [eqb, eqb_iff t]
  | withDefault t v, u => by cases u <;> simp [eqb, eqb_iff t]
  | function t ts, u => by cases u <;> simp [eqb, eqb_iff t, eqbList_iff ts]
  | objectLiteral ts ms f, u => by
    cases u <;> simp [eqb, eqbList_iff ts, eqbMembers_iff ms, and_assoc]
  | union ts, u => by cases u <;> simp [eqb, eqbList_iff ts]
  | enumeration p, u => by cases u <;> simp [eqb]
  | event e t, u => by cases u <;> simp [eqb, eqb_iff t]

theorem eqbList_iff : ∀ ts us : List Ty, eqbList ts us = true ↔ ts = us
  | [], us => by cases us <;> simp [eqbList]
  | t :: ts, us => by cases us <;> simp [eqbList, eqb_iff t, eqbList_iff ts]

theorem eqbMembers_iff : ∀ ms ns : List (Member Ty), eqbMembers ms ns = true ↔ ms = ns
  | [], ns => by cases ns <;> simp [eqbMembers]
  | ⟨n, t, o, r⟩ :: ms, ns => by
    rcases ns with _ | ⟨⟨_, _, _, _⟩, _⟩ <;>
      simp [eqbMembers, eqb_iff t, eqbMembers_iff ms, and_assoc]

end

instance : DecidableEq Ty := fun t u => decidable_of_iff _ (eqb_iff t u)

end Ty

end NativeTypes
