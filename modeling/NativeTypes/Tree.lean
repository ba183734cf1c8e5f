import NativeTypes.Ty
import NativeTypes.Path

/-! # The parts of a type

`Ty.children` lists the direct parts of a composite, each under the segment that leads to it, in the
order in which the rules of shape visit them: the result of a function before its arguments, and the
mixins of an object literal before its members.

* `Ty.induction_children`: a statement about types holds of all of them if it holds of a type
  whenever it holds of its direct parts.
* `Ty.subtrees p t`: the sub-trees that the path `p` leads to. Two members of one name share a
  segment, so there may be more than one. -/

namespace NativeTypes

namespace Ty

/-- The items of a list, each under a segment that holds its position. -/
def numbered (segment : Nat → Segment) (ts : List Ty) : List (Segment × Ty) :=
  ts.zipIdx.map fun (t, i) => (segment i, t)

/-- The direct parts of a type, in visiting order. -/
def children : Ty → List (Segment × Ty)
  | primitive _ | predefined _ | reference _ | enumeration _ => []
  | array _ t | operator _ t | withDefault t _ | event _ t => [(.element, t)]
  | function t ts => (.result, t) :: numbered .argument ts
  | objectLiteral ts ms _ => numbered .mixin ts ++ ms.map fun m => (.member m.name, m.type)
  | union ts => numbered .alternative ts

theorem mem_of_mem_numbered {segment : Nat → Segment} {ts : List Ty} {c : Segment × Ty}
    (h : c ∈ numbered segment ts) : c.2 ∈ ts := by
  simp only [numbered, List.mem_map, Prod.exists] at h
  obtain ⟨t, i, hi, rfl⟩ := h
  exact (List.mem_zipIdx' hi).2 ▸ List.getElem_mem _

/-- The direct parts of a type are smaller than the type. -/
theorem sizeOf_lt_of_mem_children {t : Ty} {c : Segment × Ty} (h : c ∈ t.children) :
    sizeOf c.2 < sizeOf t := by
  cases t with
  | primitive | predefined | reference | enumeration => simp [children] at h
  | array | operator | withDefault | event =>
    simp only [children, List.mem_singleton] at h
    subst h; simp; try omega
  | function t ts =>
    simp only [children, List.mem_cons] at h
    rcases h with rfl | h
    · simp; omega
    · have := List.sizeOf_lt_of_mem (mem_of_mem_numbered h)
      simp; omega
  | union ts =>
    have := List.sizeOf_lt_of_mem (mem_of_mem_numbered h)
    simp; omega
  | objectLiteral ts ms f =>
    simp only [children, List.mem_append, List.mem_map] at h
    rcases h with h | ⟨m, hm, rfl⟩
    · have := List.sizeOf_lt_of_mem (mem_of_mem_numbered h)
      simp; omega
    · have := List.sizeOf_lt_of_mem hm
      cases m
      simp at this ⊢; omega

/-- **Induction over the parts.** What passes from the direct parts of a type to the type holds of
every type. -/
@[elab_as_elim]
theorem induction_children {motive : Ty → Prop}
    (step : ∀ t, (∀ c ∈ t.children, motive c.2) → motive t) (t : Ty) : motive t :=
  step t fun c _ => induction_children step c.2
termination_by sizeOf t
decreasing_by exact sizeOf_lt_of_mem_children ‹_›

/-- The sub-trees that a path leads to. -/
def subtrees : Path → Ty → List Ty
  | [], t => [t]
  | s :: p, t => (t.children.filter (·.1 == s)).flatMap fun c => subtrees p c.2

end Ty

end NativeTypes
