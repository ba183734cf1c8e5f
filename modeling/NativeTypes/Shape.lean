import NativeTypes.Default
import NativeTypes.Tree

/-! # The rules of shape

Each kind of type has at most one local rule, which speaks of the type and its direct parts only:

* the optional wrapper does not wrap itself;
* a default is not given to an optional type nor to one with a default, and its text fits the type;
* a union has two alternatives or more, no two of them equal;
* the names of the members of an object literal differ, and its flag says whether all are immutable;
* an enumeration is backed by strings or by integers of 32 bits.

`Ty.violation?` is the first violation of the local rule of a type, and `Ty.shapeError?` the first
one in the whole tree, with the path to the sub-tree it is about: a composite comes before its
parts, and the parts come in the order of `Ty.children`. `Ty.shapeError?_eq` is the equation by
which it computes. -/

namespace NativeTypes

/-- What a type does to break its local rule. -/
inductive Violation where
  | doubleOptional
  | nestedDefault (inner : String)
  | invalidDefault (literal expected : String)
  | tooFewAlternatives (count : Nat)
  | duplicateAlternative (first second : Nat)
  | duplicateMember (name : String)
  | inconsistentReadonly (declared actual : Bool)
  | invalidEnumeration (backing : String)
deriving DecidableEq

namespace Violation

/-- The short code of a violation. -/
def code : Violation → String
  | doubleOptional => "DoubleOptional"
  | nestedDefault _ => "NestedDefault"
  | invalidDefault .. => "InvalidDefaultLiteral"
  | tooFewAlternatives _ => "EmptyOrSingletonUnion"
  | duplicateAlternative .. => "DuplicateUnionMember"
  | duplicateMember _ => "DuplicateMemberName"
  | inconsistentReadonly .. => "InconsistentReadonlyFlag"
  | invalidEnumeration _ => "InvalidEnumElement"

/-- The description of a violation, without its place. -/
def text : Violation → String
  | doubleOptional => "optional wraps another optional"
  | nestedDefault inner => "with_default wraps " ++ inner
  | invalidDefault literal expected =>
    "default value `" ++ literal ++ "` is not a valid " ++ expected ++ " literal"
  | tooFewAlternatives count => "union needs at least 2 elements, found " ++ count.repr
  | duplicateAlternative first second =>
    "union elements " ++ first.repr ++ " and " ++ second.repr ++ " are identical"
  | duplicateMember name => "object literal declares member `" ++ name ++ "` more than once"
  | inconsistentReadonly declared actual =>
    "allMembersReadonly is " ++ cond declared "true" "false" ++ " but members say " ++
      cond actual "true" "false"
  | invalidEnumeration backing => "enum must be backed by string or int32, not " ++ backing

end Violation

/-- A violation and the path to the sub-tree that commits it. -/
structure ShapeError where
  path : Path
  violation : Violation
deriving DecidableEq

namespace ShapeError

/-- The message of an error of shape. -/
def message (e : ShapeError) : String :=
  e.violation.text ++ " at " ++ e.path.text

/-- The same error, seen from one segment further up. -/
def under (s : Segment) (e : ShapeError) : ShapeError :=
  { e with path := s :: e.path }

end ShapeError

/-- The first item that repeats an earlier one, if any item does. -/
def firstRepeated {α : Type} [DecidableEq α] (seen : List α) : List α → Option α
  | [] => none
  | a :: r => if a ∈ seen then some a else firstRepeated (a :: seen) r

/-- The positions of the first item that comes again and of its next occurrence, counted on from
`i`. -/
def firstRecurring {α : Type} [DecidableEq α] (i : Nat) : List α → Option (Nat × Nat)
  | [] => none
  | a :: r =>
    match r.findIdx? (· = a) with
    | some k => some (i, i + 1 + k)
    | none => firstRecurring (i + 1) r

namespace Ty

/-- How the local rule of a default is broken. -/
def defaultViolation? (element : Ty) (value : String) : Option Violation :=
  match element with
  | operator .optional _ => some (.nestedDefault "optional")
  | withDefault .. => some (.nestedDefault "with_default")
  | t =>
    if t.acceptsDefault value then none else some (.invalidDefault value t.expectedDefault)

/-- How the local rule of a union is broken. -/
def unionViolation? (elements : List Ty) : Option Violation :=
  if elements.length < 2 then
    some (.tooFewAlternatives elements.length)
  else
    (firstRecurring 0 elements).map fun (i, j) => .duplicateAlternative i j

/-- How the local rule of an object literal is broken. -/
def objectViolation? (members : List (Member Ty)) (allReadonly : Bool) : Option Violation :=
  match firstRepeated [] (members.map (·.name)) with
  | some name => some (.duplicateMember name)
  | none =>
    if Member.allReadonly members = allReadonly then none
    else some (.inconsistentReadonly allReadonly (Member.allReadonly members))

/-- **How a type breaks its own local rule**, if it does. -/
def violation? : Ty → Option Violation
  | primitive _ | predefined _ | reference _ | array .. | function .. | event .. => none
  | operator o t => if o = .optional ∧ t.isOptional then some .doubleOptional else none
  | withDefault t v => defaultViolation? t v
  | objectLiteral _ ms f => objectViolation? ms f
  | union ts => unionViolation? ts
  | enumeration p => if p.backsEnumeration then none else some (.invalidEnumeration p.name)

/-- **The first error of shape in a type**, in visiting order. -/
def shapeError? (t : Ty) : Option ShapeError :=
  match t.violation? with
  | some v => some ⟨[], v⟩
  | none => t.children.attach.findSome? fun c => (shapeError? c.1.2).map (·.under c.1.1)
termination_by sizeOf t
decreasing_by exact sizeOf_lt_of_mem_children c.2

theorem findSome?_attach {α β : Type} (l : List α) (f : α → Option β) :
    l.attach.findSome? (fun a => f a.1) = l.findSome? f := by
  conv => rhs; rw [← List.attach_map_subtype_val l, List.findSome?_map]
  rfl

/-- A type is looked at before its parts, and the parts from the first to the last. -/
theorem shapeError?_eq (t : Ty) :
    t.shapeError? = match t.violation? with
      | some v => some ⟨[], v⟩
      | none => t.children.findSome? fun c => c.2.shapeError?.map (·.under c.1) := by
  rw [shapeError?]
  split <;> simp [findSome?_attach _ fun c : Segment × Ty => c.2.shapeError?.map (·.under c.1)]

end Ty

end NativeTypes
