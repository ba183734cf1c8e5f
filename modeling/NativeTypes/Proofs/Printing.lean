import NativeTypes.Printer
import NativeTypes.Proofs.Except
import NativeTypes.Proofs.FirstViolation

/-! # Printing well-shaped types

Checking and writing go over the parts of a type in different orders, but over the same parts. Only
an enumeration can be without an annotation, and only where it breaks its local rule: a composite
has an annotation as soon as its parts have one (`Ty.exists_annotationText_of_children`), and so has
every well-shaped type (`Ty.exists_annotationText`). A printer that checks first is therefore the
same as one that does not, except that it refuses the ill-shaped types
(`Printer.print_checked_eq`). -/

namespace NativeTypes

namespace Ty

/-! ### Annotations of lists -/

theorem exists_annotationTexts {segment : Nat → Segment} {i : Nat} {ts : List Ty}
    (h : ∀ t ∈ ts, ∃ s, t.annotationText = .ok s) :
    ∃ ss, annotationTexts segment i ts = .ok ss := by
  induction ts generalizing i with
  | nil => exact ⟨[], by rw [annotationTexts]⟩
  | cons t ts ih =>
    rw [List.forall_mem_cons] at h
    obtain ⟨s, hs⟩ := h.1
    obtain ⟨ss, hss⟩ := ih (i := i + 1) h.2
    exact ⟨s :: ss, by rw [annotationTexts, hs, hss]; rfl⟩

theorem exists_memberTexts {ms : List (Member Ty)}
    (h : ∀ m ∈ ms, ∃ s, m.type.annotationText = .ok s) : ∃ ss, memberTexts ms = .ok ss := by
  induction ms with
  | nil => exact ⟨[], by rw [memberTexts]⟩
  | cons m ms ih =>
    rw [List.forall_mem_cons] at h
    obtain ⟨s, hs⟩ := h.1
    obtain ⟨ss, hss⟩ := ih h.2
    exact ⟨m.text s :: ss, by rw [memberTexts, hs, hss]; rfl⟩

/-! ### Annotations of types -/

/-- **A type has an annotation when its parts have one**, unless it is an enumeration with a wrong
backing. -/
theorem exists_annotationText_of_children {t : Ty}
    (he : ∀ p, t = enumeration p → p.backsEnumeration = true)
    (h : ∀ c ∈ t.children, ∃ s, c.2.annotationText = .ok s) : ∃ s, t.annotationText = .ok s := by
  have items : ∀ {segment : Nat → Segment} {ts : List Ty},
      (∀ c ∈ numbered segment ts, ∃ s, c.2.annotationText = .ok s) →
      ∃ ss, annotationTexts segment 0 ts = .ok ss := fun hts =>
    exists_annotationTexts (forall_mem_numbered.1 hts)
  cases t with
  | primitive p => exact ⟨p.annotationText, by rw [annotationText]⟩
  | predefined p => exact ⟨p.name, by rw [annotationText]⟩
  | reference n => exact ⟨n, by rw [annotationText]⟩
  | array _ t | operator _ t | withDefault t _ | event _ t =>
    obtain ⟨s, hs⟩ := h (.element, t) (List.mem_singleton.2 rfl)
    exact ⟨_, by rw [annotationText, hs]; rfl⟩
  | function t ts =>
    obtain ⟨s, hs⟩ := h (.result, t) List.mem_cons_self
    obtain ⟨ss, hss⟩ := items fun c hc => h c (List.mem_cons_of_mem _ hc)
    exact ⟨_, by rw [annotationText, hs, hss]; rfl⟩
  | objectLiteral ts ms f =>
    obtain ⟨ss, hss⟩ := items fun c hc => h c (List.mem_append_left _ hc)
    obtain ⟨ns, hns⟩ : ∃ ns, memberTexts ms = .ok ns := exists_memberTexts fun m hm =>
      h (.member m.name, m.type) (List.mem_append_right _ (List.mem_map.2 ⟨m, hm, rfl⟩))
    exact ⟨_, by rw [annotationText, hss, hns]; rfl⟩
  | union ts =>
    obtain ⟨ss, hss⟩ := items h
    exact ⟨_, by rw [annotationText, hss]; rfl⟩
  | enumeration p => exact ⟨_, by rw [annotationText, if_pos (he p rfl)]⟩

/-- **Every well-shaped type has an annotation.** -/
theorem exists_annotationText {t : Ty} (h : t.shapeError? = none) :
    ∃ s, t.annotationText = .ok s := by
  induction t using induction_children with
  | step t ih =>
    obtain ⟨hr, hc⟩ := shapeError?_eq_none.1 h
    refine exists_annotationText_of_children ?_ fun c hm => ih c hm (hc c hm)
    rintro p rfl
    exact Primitive.backsEnumeration_iff.2 hr

end Ty

namespace Printer

theorem print_of_shapeError {t : Ty} {e : ShapeError} (h : t.shapeError? = some e) :
    print ⟨true⟩ t = .error (.shape e) := by
  simp [print, h]

theorem print_of_wellShaped {t : Ty} (h : t.shapeError? = none) :
    ∃ s, ∀ p : Printer, p.print t = .ok s := by
  obtain ⟨s, hs⟩ := Ty.exists_annotationText h
  refine ⟨s, fun p => ?_⟩
  have hp : p.print t = t.annotationText.mapError .unwritable := by simp [print, h]
  rw [hp, hs]
  rfl

/-- A printer that checks prints the well-shaped types, with their annotations. -/
theorem print_eq_ok_iff {t : Ty} {s : String} :
    ({} : Printer).print t = .ok s ↔ t.shapeError? = none ∧ t.annotationText = .ok s := by
  cases h : t.shapeError? with
  | none => simp [print, h, mapError_eq_ok_iff]
  | some e => simp [print, h]

/-- **A printer that checks the shape first differs from one that does not only in refusing the
ill-shaped types**: both print a well-shaped type, with the same text, and an ill-shaped one is
refused with its error. So a printer that checks never meets a type without an annotation, and one
that does not check meets it in ill-shaped types only. -/
theorem print_checked_eq (t : Ty) :
    (match t.shapeError? with
      | none => ∃ s, ({} : Printer).print t = .ok s ∧ print ⟨false⟩ t = .ok s
      | some e => ({} : Printer).print t = .error (.shape e)) ∧
    (∀ u, ({} : Printer).print t ≠ .error (.unwritable u)) ∧
    ∀ u, print ⟨false⟩ t = .error (.unwritable u) → ∃ e, t.shapeError? = some e := by
  cases h : t.shapeError? with
  | none =>
    obtain ⟨s, hs⟩ := print_of_wellShaped h
    refine ⟨⟨s, hs _, hs _⟩, fun u hu => ?_, fun u hu => ?_⟩
    · rw [hs] at hu
      cases hu
    · rw [hs] at hu
      cases hu
  | some e =>
    have he := print_of_shapeError h
    refine ⟨he, fun u hu => ?_, fun _ _ => ⟨e, rfl⟩⟩
    cases he.symm.trans hu

/-- Without a check, the failure is that of the first enumeration in the order of writing; with one,
it is the error of shape that comes first in visiting order. -/
example :
    let t := Ty.function (.union []) [.enumeration .boolean]
    print ⟨true⟩ t = .error (.shape ⟨[.result], .tooFewAlternatives 0⟩) ∧
      print ⟨false⟩ t = .error (.unwritable ⟨[.argument 0], "enum of boolean"⟩) := by
  constructor <;> cbv

end Printer

end NativeTypes
