import Mathlib.Data.List.Forall2
import NativeTypes.Proofs.Independence

/-! # Checking a container

A container is checked one definition after the other. What comes of it is either that all
definitions are well-shaped, or a list with the error of each of the others. Since no name is
defined twice, the error of a name in this list is the error of its definition, which is found
without going through the others.

* `Container.forall₂_shapeErrors`: the list goes along with the ill-shaped definitions, in order.
* `Container.check_by_name`: **checking all definitions is checking each under its name.** -/

namespace NativeTypes

namespace Container

/-- An error belongs to a definition: it is the error of its type, under its name. -/
def IsErrorOf (e : String × Ty) (x : String × ShapeError) : Prop :=
  x.1 = e.1 ∧ e.2.shapeError? = some x.2

variable (c : Container)

/-- **The errors go along with the ill-shaped definitions.** -/
theorem forall₂_shapeErrors :
    List.Forall₂ IsErrorOf (c.entries.filter fun e => e.2.shapeError?.isSome) c.shapeErrors := by
  rw [shapeErrors]
  induction c.entries with
  | nil => exact .nil
  | cons e es ih =>
    cases h : e.2.shapeError? with
    | none => simpa [h] using ih
    | some x => simpa [h] using ⟨⟨rfl, h⟩, ih⟩

theorem shapeErrors_eq_nil_iff :
    c.shapeErrors = [] ↔ ∀ e ∈ c.entries, e.2.shapeError? = none := by
  simp [shapeErrors, List.filterMap_eq_nil_iff]

theorem nodup_map_fst_shapeErrors : (c.shapeErrors.map (·.1)).Nodup := by
  rw [map_fst_shapeErrors_eq_filter]
  exact c.nodup.filter _

/-- **Checking all definitions is checking each under its name.** All is well if each type is
well-shaped; otherwise the errors are those of the ill-shaped definitions, in their order and with
each name once, and the error of a name is that of its type, where it has one. -/
theorem check_by_name :
    (c.check = .ok () ↔ ∀ e ∈ c.entries, e.2.shapeError? = none) ∧
    (c.check = .ok () ∨ ∃ l : ShapeErrors, c.check = .error l ∧
      List.Forall₂ IsErrorOf (c.entries.filter fun e => e.2.shapeError?.isSome) l ∧
      (l.map (·.1)).Nodup ∧
      ∀ n : String, l.forName? n = (c.get? n).bind Ty.shapeError?) := by
  rw [check_eq, ← shapeErrors_eq_nil_iff]
  by_cases h : c.shapeErrors = []
  · rw [if_pos h]
    exact ⟨⟨fun _ => h, fun _ => rfl⟩, .inl rfl⟩
  · rw [if_neg h]
    refine ⟨⟨nofun, fun hn => absurd hn h⟩, .inr ⟨c.shapeErrors, rfl, ?_, ?_, fun n => ?_⟩⟩
    · exact c.forall₂_shapeErrors
    · exact c.nodup_map_fst_shapeErrors
    · exact c.forName?_shapeErrors n

end Container

end NativeTypes
