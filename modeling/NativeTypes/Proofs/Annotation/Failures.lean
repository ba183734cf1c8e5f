import NativeTypes.Printer
import NativeTypes.Proofs.Except
import NativeTypes.Proofs.Positions
import NativeTypes.Proofs.Rules

/-! # Why a type has no annotation

The parts of a type are written in another order than they are visited: the arguments of a function
before its result, and the members of an object literal before its mixins (`Ty.writtenParts`).
`Ty.writes` lists every sub-tree with its path, in the order of writing; what is written is what is
reached (`Ty.mem_writes`).

The annotation of a composite fails with the first of its parts that has none
(`Ty.failure?_annotationText_of_parts`). So the annotation of a type fails with the first sub-tree
that has none of itself (`Ty.failure?_annotationText`), and that is an enumeration with a wrong
backing: `Printer.print_unchecked_eq_error_iff`. -/

namespace NativeTypes

namespace Ty

/-! ### The order of writing -/

/-- The direct parts of a type, in the order of writing. -/
def writtenParts : Ty → List (Segment × Ty)
  | function t ts => numbered .argument ts ++ [(.result, t)]
  | objectLiteral ts ms _ => ms.map (fun m => (.member m.name, m.type)) ++ numbered .mixin ts
  | t => t.children

theorem mem_writtenParts {t : Ty} {c : Segment × Ty} : c ∈ t.writtenParts ↔ c ∈ t.children := by
  cases t with
  | function t ts => simp [writtenParts, children, or_comm]
  | objectLiteral ts ms f => simp only [writtenParts, children, List.mem_append, or_comm]
  | _ => rfl

/-- **Every sub-tree and its path**, in the order of writing. -/
def writes (t : Ty) : List (Path × Ty) :=
  ([], t) :: t.writtenParts.attach.flatMap fun c => through c.1.1 (writes c.1.2)
termination_by sizeOf t
decreasing_by exact sizeOf_lt_of_mem_children (mem_writtenParts.1 c.2)

theorem writes_eq (t : Ty) :
    t.writes = ([], t) :: t.writtenParts.flatMap fun c => through c.1 c.2.writes := by
  rw [writes, List.cons.injEq]
  refine ⟨rfl, ?_⟩
  conv => rhs; rw [← List.attach_map_subtype_val t.writtenParts, List.flatMap_map]

/-- **What is written is what is reached.** -/
theorem mem_writes {t s : Ty} {p : Path} : (p, s) ∈ t.writes ↔ t.Reaches p s := by
  induction t using induction_children generalizing p with
  | step t ih =>
    rw [writes_eq, List.mem_cons, List.mem_flatMap]
    constructor
    · rintro (h | ⟨c, hc, h⟩)
      · obtain ⟨rfl, rfl⟩ := Prod.mk.injEq .. ▸ h
        exact .nil s
      · obtain ⟨q, rfl, hq⟩ := mem_through.1 h
        have hc := mem_writtenParts.1 hc
        exact reaches_cons.2 ⟨c.2, hc, (ih c hc).1 hq⟩
    · intro h
      cases p with
      | nil =>
        cases h
        exact .inl rfl
      | cons g p =>
        obtain ⟨u, hu, hp⟩ := reaches_cons.1 h
        exact .inr ⟨(g, u), mem_writtenParts.2 hu, mem_through.2 ⟨p, rfl, (ih _ hu).2 hp⟩⟩

/-! ### Failures of parts -/

/-- How the annotation of a part fails, seen from the type. -/
def partFailure? (c : Segment × Ty) : Option Unwritable :=
  (failure? c.2.annotationText).map (.under c.1)

theorem findSome?_cons_eq_or {α β : Type} (f : α → Option β) (a : α) (l : List α) :
    (a :: l).findSome? f = (f a).or (l.findSome? f) := by
  cases h : f a <;> simp [h]

theorem failure?_annotationTexts (segment : Nat → Segment) (i : Nat) (ts : List Ty) :
    failure? (annotationTexts segment i ts) =
      ((ts.zipIdx i).map fun (t, j) => (segment j, t)).findSome? partFailure? := by
  induction ts generalizing i with
  | nil => rfl
  | cons t ts ih =>
    rw [annotationTexts, failure?_bind fun s => failure?_bind_ok, failure?_mapError, ih,
      List.zipIdx_cons, List.map_cons, findSome?_cons_eq_or]
    rfl

theorem failure?_memberTexts (ms : List (Member Ty)) :
    failure? (memberTexts ms) =
      (ms.map fun m => (Segment.member m.name, m.type)).findSome? partFailure? := by
  induction ms with
  | nil => rfl
  | cons m ms ih =>
    rw [memberTexts, failure?_bind fun s => failure?_bind_ok, failure?_mapError, ih,
      List.map_cons, findSome?_cons_eq_or]
    rfl

/-- **The annotation of a composite fails with that of the first part that has none.** -/
theorem failure?_annotationText_of_parts {t : Ty} (ht : ∀ b, t ≠ enumeration b) :
    failure? t.annotationText = t.writtenParts.findSome? partFailure? := by
  cases t with
  | primitive | predefined | reference => rfl
  | array _ t | operator _ t | withDefault t _ | event _ t =>
    rw [annotationText, failure?_bind_ok, failure?_mapError]
    exact List.findSome?_singleton.symm
  | function t ts =>
    rw [annotationText, failure?_bind fun s => failure?_bind_ok, failure?_annotationTexts,
      failure?_mapError, writtenParts, List.findSome?_append, findSome?_cons_eq_or,
      List.findSome?_nil, Option.or_none]
    rfl
  | objectLiteral ts ms f =>
    rw [annotationText, failure?_bind fun s => failure?_bind_ok, failure?_memberTexts,
      failure?_annotationTexts, writtenParts, List.findSome?_append]
    rfl
  | union ts =>
    rw [annotationText, failure?_bind_ok, failure?_annotationTexts]
    rfl
  | enumeration b => exact (ht b rfl).elim

/-! ### The first sub-tree without an annotation -/

/-- How a sub-tree is without an annotation of itself, whatever its parts have. -/
def unwritable? : Path × Ty → Option Unwritable
  | (p, enumeration b) => if b.backsEnumeration then none else some ⟨p, "enum of " ++ b.name⟩
  | _ => none

theorem unwritable?_eq_none_iff {c : Path × Ty} :
    unwritable? c = none ↔ ∀ b, c.2 = enumeration b → b = .string ∨ b = .int32 := by
  obtain ⟨p, s⟩ := c
  cases s <;>
    simp [unwritable?, Primitive.backsEnumeration_iff, Decidable.or_iff_not_imp_left]

theorem unwritable?_eq_some_iff {c : Path × Ty} {e : Unwritable} :
    unwritable? c = some e ↔ ∃ b, c.2 = enumeration b ∧ b ≠ .string ∧ b ≠ .int32 ∧
      e = ⟨c.1, "enum of " ++ b.name⟩ := by
  obtain ⟨p, s⟩ := c
  cases s <;> simp [unwritable?, Primitive.backsEnumeration_iff, and_assoc, @eq_comm _ e]

/-- A sub-tree seen from one segment further up. -/
theorem findSome?_unwritable?_through (g : Segment) (l : List (Path × Ty)) :
    (through g l).findSome? unwritable? = (l.findSome? unwritable?).map (.under g) := by
  have step : ∀ c : Path × Ty, unwritable? (g :: c.1, c.2) = (unwritable? c).map (.under g) := by
    rintro ⟨p, s⟩
    cases s with
    | enumeration b => by_cases h : b.backsEnumeration <;> simp [unwritable?, h, Unwritable.under]
    | _ => rfl
  rw [List.map_findSome?, through, List.findSome?_map]
  exact congrArg (l.findSome? ·) (funext step)

/-- The sub-trees below a type, part by part. -/
theorem findSome?_unwritable?_flatMap {l : List (Segment × Ty)}
    (h : ∀ c ∈ l, failure? c.2.annotationText = c.2.writes.findSome? unwritable?) :
    (l.flatMap fun c => through c.1 c.2.writes).findSome? unwritable? =
      l.findSome? partFailure? := by
  induction l with
  | nil => rfl
  | cons c l ih =>
    rw [List.forall_mem_cons] at h
    rw [List.flatMap_cons, List.findSome?_append, findSome?_unwritable?_through, ih h.2,
      findSome?_cons_eq_or, partFailure?, h.1]

/-- **The annotation of a type fails with the first sub-tree that has none of itself.** -/
theorem failure?_annotationText (t : Ty) :
    failure? t.annotationText = t.writes.findSome? unwritable? := by
  induction t using induction_children with
  | step t ih =>
    rw [writes_eq, findSome?_cons_eq_or,
      findSome?_unwritable?_flatMap fun c hc => ih c (mem_writtenParts.1 hc)]
    by_cases ht : ∃ b, t = enumeration b
    · obtain ⟨b, rfl⟩ := ht
      rw [annotationText, unwritable?]
      by_cases hb : b.backsEnumeration <;> simp [hb, failure?, writtenParts, children]
    · have ht : ∀ b, t ≠ enumeration b := fun b hb => ht ⟨b, hb⟩
      have none : unwritable? ([], t) = none :=
        unwritable?_eq_none_iff.2 fun b hb => (ht b hb).elim
      rw [none, Option.none_or, failure?_annotationText_of_parts ht]

/-- **The first enumeration, in the order of writing, with a wrong backing.** -/
def FirstUnwritable (t : Ty) (p : Path) (b : Primitive) : Prop :=
  ∃ before after, t.writes = before ++ (p, enumeration b) :: after ∧
    (b ≠ .string ∧ b ≠ .int32) ∧
    ∀ c ∈ before, ∀ q, c.2 = enumeration q → q = .string ∨ q = .int32

theorem FirstUnwritable.reaches {t : Ty} {p : Path} {b : Primitive} (h : t.FirstUnwritable p b) :
    t.Reaches p (enumeration b) := by
  obtain ⟨before, after, hw, -⟩ := h
  exact mem_writes.1 (hw ▸ List.mem_append_right before List.mem_cons_self)

theorem annotationText_eq_error_iff {t : Ty} {e : Unwritable} :
    t.annotationText = .error e ↔
      ∃ p b, t.FirstUnwritable p b ∧ e = ⟨p, "enum of " ++ b.name⟩ := by
  rw [← failure?_eq_some_iff, failure?_annotationText, List.findSome?_eq_some_iff]
  simp only [unwritable?_eq_some_iff, unwritable?_eq_none_iff]
  constructor
  · rintro ⟨before, ⟨p, s⟩, after, hw, ⟨b, rfl, hs, hi, rfl⟩, hb⟩
    exact ⟨p, b, ⟨before, after, hw, ⟨hs, hi⟩, hb⟩, rfl⟩
  · rintro ⟨p, b, ⟨before, after, hw, ⟨hs, hi⟩, hb⟩, rfl⟩
    exact ⟨before, (p, enumeration b), after, hw, ⟨b, rfl, hs, hi, rfl⟩, hb⟩

/-- Where there is an enumeration with a wrong backing, there is no annotation. -/
theorem Reaches.exists_annotationText_eq_error {t : Ty} {p : Path} {b : Primitive}
    (hp : t.Reaches p (enumeration b)) (hb : b ≠ .string ∧ b ≠ .int32) :
    ∃ e, t.annotationText = .error e := by
  have hf : failure? t.annotationText ≠ none := by
    rw [failure?_annotationText, Ne, List.findSome?_eq_none_iff]
    intro h
    exact (unwritable?_eq_none_iff.1 (h _ (mem_writes.2 hp)) b rfl).elim hb.1 hb.2
  obtain ⟨e, he⟩ := Option.ne_none_iff_exists'.1 hf
  exact ⟨e, failure?_eq_some_iff.1 he⟩

end Ty

namespace Printer

theorem print_unchecked_eq (t : Ty) : print ⟨false⟩ t = t.annotationText.mapError .unwritable :=
  rfl

/-- **A printer that does not check fails on the types with an enumeration that is backed by neither
strings nor integers of 32 bits**, at whatever depth, and on no others. The failure names the first
such enumeration in the order of writing, and the path to it. -/
theorem print_unchecked_eq_error_iff (t : Ty) :
    ((∃ e, print ⟨false⟩ t = .error e) ↔
      ∃ p b, t.Reaches p (.enumeration b) ∧ b ≠ .string ∧ b ≠ .int32) ∧
    ∀ e, print ⟨false⟩ t = .error e ↔
      ∃ p b, t.FirstUnwritable p b ∧ t.Reaches p (.enumeration b) ∧
        e = .unwritable ⟨p, "enum of " ++ b.name⟩ := by
  simp only [print_unchecked_eq, mapError_eq_error_iff, Ty.annotationText_eq_error_iff]
  refine ⟨⟨?_, ?_⟩, fun e => ⟨?_, ?_⟩⟩
  · rintro ⟨-, -, ⟨p, b, h, -⟩, -⟩
    have ⟨_, _, _, hb, _⟩ := h
    exact ⟨p, b, h.reaches, hb⟩
  · rintro ⟨p, b, hp, hb⟩
    obtain ⟨e, he⟩ := hp.exists_annotationText_eq_error hb
    exact ⟨_, e, Ty.annotationText_eq_error_iff.1 he, rfl⟩
  · rintro ⟨-, ⟨p, b, h, rfl⟩, rfl⟩
    exact ⟨p, b, h, h.reaches, rfl⟩
  · rintro ⟨p, b, h, -, rfl⟩
    exact ⟨_, ⟨p, b, h, rfl⟩, rfl⟩

/-- Members come before mixins, and what is under the first member before the second. -/
example :
    print ⟨false⟩ (.objectLiteral [.enumeration .boolean]
      [⟨"a", .array true (.enumeration .float), false, false⟩,
        ⟨"b", .enumeration .double, false, false⟩] false) =
      .error (.unwritable ⟨[.member "a", .element], "enum of float"⟩) := by
  cbv

end Printer

end NativeTypes
