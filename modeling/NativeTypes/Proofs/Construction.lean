import NativeTypes.ObjectLiteral
import NativeTypes.Proofs.Annotation.Failures
import NativeTypes.Proofs.Payloads

/-! # Types that are built

`Ty.Built` holds of the types that are made without setting any part by hand: from the names, by the
constructors, with members that are marked and object literals that are given mixins. Two parts of a
type cannot be chosen then, the flag of an object literal and, beyond two cases, the backing of an
enumeration. What is built has these right at every depth, and every type that has them right can be
built (`Ty.built_iff_everywhere_isCoherent`).

Such a type may still break other rules of shape, but none about those two parts, and there is
always an annotation for it: `Ty.Built.coherent_and_printed`. -/

namespace NativeTypes

mutual

/-- **The types that the constructors build.** -/
inductive Ty.Built : Ty → Prop
  | primitive (p : Primitive) : Ty.Built (.primitive p)
  | predefined (p : Predefined) : Ty.Built (.predefined p)
  | reference (n : String) : Ty.Built (.reference n)
  | array (r : Bool) {t : Ty} (ht : Ty.Built t) : Ty.Built (.array r t)
  | operator (o : Operator) {t : Ty} (ht : Ty.Built t) : Ty.Built (.operator o t)
  | withDefault {t : Ty} (ht : Ty.Built t) (v : String) : Ty.Built (.withDefault t v)
  | function {t : Ty} {ts : List Ty} (ht : Ty.Built t) (hts : ∀ u ∈ ts, Ty.Built u) :
      Ty.Built (.function t ts)
  | object {o : ObjectLiteral} (ho : ObjectLiteral.Built o) : Ty.Built o.ty
  | union {ts : List Ty} (hts : ∀ u ∈ ts, Ty.Built u) : Ty.Built (.union ts)
  | stringEnumeration : Ty.Built (.enumeration .string)
  | int32Enumeration : Ty.Built (.enumeration .int32)
  | event (e : EventPhase) {t : Ty} (ht : Ty.Built t) : Ty.Built (.event e t)

/-- Members of types that are built, marked any number of times. -/
inductive Member.Built : Member Ty → Prop
  | plain (n : String) {t : Ty} (ht : Ty.Built t) : Member.Built (.plain n t)
  | asOptional {m : Member Ty} (hm : Member.Built m) : Member.Built m.asOptional
  | asReadonly {m : Member Ty} (hm : Member.Built m) : Member.Built m.asReadonly

/-- Object literals of members that are built, given mixins any number of times. -/
inductive ObjectLiteral.Built : ObjectLiteral → Prop
  | ofMembers {ms : List (Member Ty)} (hms : ∀ m ∈ ms, Member.Built m) :
      ObjectLiteral.Built (.ofMembers ms)
  | withMixins {o : ObjectLiteral} {ts : List Ty} (ho : ObjectLiteral.Built o)
      (hts : ∀ u ∈ ts, Ty.Built u) : ObjectLiteral.Built (o.withMixins ts)

end

namespace Ty

/-! ### Coherent types -/

/-- Whether the flag of an object literal is that of its members, and an enumeration is backed by
strings or by integers of 32 bits. -/
def isCoherent : Ty → Bool
  | objectLiteral _ ms f => f == Member.allReadonly ms
  | enumeration p => p.backsEnumeration
  | _ => true

variable {t : Ty}

/-- A violation of a coherent type is about something else. -/
theorem violation?_of_isCoherent {v : Violation} (ht : t.isCoherent = true)
    (hv : t.violation? = some v) :
    (∀ declared actual, v ≠ .inconsistentReadonly declared actual) ∧
      ∀ backing, v ≠ .invalidEnumeration backing := by
  cases describes_of_violation? hv with
  | inconsistentReadonly ts hn ha hne =>
    have hflag := eq_of_beq ht
    exact absurd (hflag.trans (Bool.eq_iff_iff.2 (Member.allReadonly_iff.trans ha.symm))) hne
  | invalidEnumeration hs hi =>
    exact ((Primitive.backsEnumeration_iff.1 ht).elim hs hi).elim
  | _ => exact ⟨nofun, nofun⟩

theorem Everywhere.shapeError?_of_isCoherent {e : ShapeError} (ht : t.Everywhere isCoherent)
    (he : t.shapeError? = some e) :
    (∀ declared actual, e.violation ≠ .inconsistentReadonly declared actual) ∧
      ∀ backing, e.violation ≠ .invalidEnumeration backing := by
  obtain ⟨s, hs, hv⟩ := exists_violation_of_shapeError? he
  have hp : t.Reaches e.path s := mem_subtrees.1 (hs.subtrees_eq ▸ List.mem_singleton_self s)
  exact violation?_of_isCoherent (ht _ s hp) hv

/-- A type that is coherent everywhere has an annotation. -/
theorem Everywhere.exists_annotationText (ht : t.Everywhere isCoherent) :
    ∃ s, t.annotationText = .ok s := by
  cases h : t.annotationText with
  | ok s => exact ⟨s, rfl⟩
  | error e =>
    obtain ⟨p, b, hb, -⟩ := annotationText_eq_error_iff.1 h
    have hbacks := Primitive.backsEnumeration_iff.1 (ht p _ hb.reaches)
    obtain ⟨-, -, -, ⟨hs, hi⟩, -⟩ := hb
    exact (hbacks.elim hs hi).elim

/-! ### What is built is coherent -/

/-- An object literal is coherent everywhere if its flag is that of its members and its parts are. -/
theorem everywhere_objectLiteral_iff {ts : List Ty} {ms : List (Member Ty)} {f : Bool} :
    (objectLiteral ts ms f).Everywhere isCoherent ↔
      f = Member.allReadonly ms ∧ (∀ u ∈ ts, u.Everywhere isCoherent) ∧
        ∀ m ∈ ms, m.type.Everywhere isCoherent := by
  rw [everywhere_iff, children, List.forall_mem_append,
    forall_mem_numbered (P := Everywhere isCoherent), List.forall_mem_map, isCoherent, beq_iff_eq]

end Ty

mutual

/-- **What is built is coherent at every depth.** -/
theorem Ty.Built.everywhere : ∀ {t : Ty}, t.Built → t.Everywhere Ty.isCoherent
  | _, .primitive _ | _, .predefined _ | _, .reference _ | _, .stringEnumeration
  | _, .int32Enumeration => Ty.everywhere_iff.2 ⟨rfl, nofun⟩
  | _, .array _ ht | _, .operator _ ht | _, .withDefault ht _ | _, .event _ ht =>
    Ty.everywhere_iff.2 ⟨rfl, List.forall_mem_singleton.2 ht.everywhere⟩
  | _, .function ht hts =>
    Ty.everywhere_iff.2 ⟨rfl, List.forall_mem_cons.2
      ⟨ht.everywhere, Ty.forall_mem_numbered.2 fun u hu => (hts u hu).everywhere⟩⟩
  | _, .union hts =>
    Ty.everywhere_iff.2 ⟨rfl, Ty.forall_mem_numbered.2 fun u hu => (hts u hu).everywhere⟩
  | _, .object ho => ho.everywhere

/-- Marking a member leaves its type. -/
theorem Member.Built.everywhere : ∀ {m : Member Ty}, m.Built → m.type.Everywhere Ty.isCoherent
  | _, .plain _ ht => ht.everywhere
  | _, .asOptional hm | _, .asReadonly hm => hm.everywhere

/-- The flag is that of the members at first, and mixins change neither it nor the members. -/
theorem ObjectLiteral.Built.everywhere : ∀ {o : ObjectLiteral}, o.Built →
    o.ty.Everywhere Ty.isCoherent
  | _, .ofMembers hms =>
    Ty.everywhere_objectLiteral_iff.2 ⟨rfl, nofun, fun m hm => (hms m hm).everywhere⟩
  | _, .withMixins ho hts =>
    have ⟨hflag, _, hms⟩ := Ty.everywhere_objectLiteral_iff.1 ho.everywhere
    Ty.everywhere_objectLiteral_iff.2 ⟨hflag, fun u hu => (hts u hu).everywhere, hms⟩

end

/-! ### What is coherent can be built -/

/-- A member of a type that is built can be marked as it should be. -/
theorem Member.Built.of_type {m : Member Ty} (h : m.type.Built) : m.Built := by
  obtain ⟨n, t, o, r⟩ := m
  have hplain : Member.Built (.plain n t) := .plain n h
  cases o <;> cases r
  · exact hplain
  · exact hplain.asReadonly
  · exact hplain.asOptional
  · exact hplain.asOptional.asReadonly

namespace Ty

theorem Built.of_everywhere {t : Ty} (h : t.Everywhere isCoherent) : t.Built := by
  induction t using induction_children with
  | step t ih =>
    obtain ⟨hnode, hparts⟩ := everywhere_iff.1 h
    have hbuilt : ∀ c ∈ t.children, c.2.Built := fun c hc => ih c hc (hparts c hc)
    cases t with
    | primitive p => exact .primitive p
    | predefined p => exact .predefined p
    | reference n => exact .reference n
    | array r t => exact .array r (hbuilt (.element, t) List.mem_cons_self)
    | operator o t => exact .operator o (hbuilt (.element, t) List.mem_cons_self)
    | withDefault t v => exact .withDefault (hbuilt (.element, t) List.mem_cons_self) v
    | event e t => exact .event e (hbuilt (.element, t) List.mem_cons_self)
    | function t ts =>
      obtain ⟨ht, hts⟩ := List.forall_mem_cons.1 hbuilt
      exact .function ht (forall_mem_numbered.1 hts)
    | union ts => exact .union (forall_mem_numbered.1 hbuilt)
    | objectLiteral ts ms f =>
      obtain ⟨hts, hms⟩ := List.forall_mem_append.1 hbuilt
      have hmembers : ∀ m ∈ ms, m.Built := fun m hm => .of_type (List.forall_mem_map.1 hms m hm)
      have hobject := Built.object (.withMixins (.ofMembers hmembers) (forall_mem_numbered.1 hts))
      rwa [ObjectLiteral.ty_withMixins_ofMembers, objectOf, ← eq_of_beq hnode] at hobject
    | enumeration p =>
      rcases Primitive.backsEnumeration_iff.1 hnode with rfl | rfl
      · exact .stringEnumeration
      · exact .int32Enumeration

/-- **The types that can be built are those that are coherent everywhere.** -/
theorem built_iff_everywhere_isCoherent {t : Ty} : t.Built ↔ t.Everywhere isCoherent :=
  ⟨Built.everywhere, Built.of_everywhere⟩

/-- All members are immutable, and the flag denies it. -/
example : ¬ (objectLiteral [] [⟨"a", .primitive .string, false, true⟩] false).Built := by
  rw [built_iff_everywhere_isCoherent]
  decide

/-! ### Checking and printing what is built -/

/-- **A type that is built has the right flags and backings at every depth**, so that no check of it
or of a part of it finds a wrong one, and a printer that does not check prints it, whether or not it
is well-shaped. -/
theorem Built.coherent_and_printed {t : Ty} (h : t.Built) :
    (∀ p s, t.Reaches p s → s.isCoherent = true ∧ ∀ e, s.shapeError? = some e →
      (∀ declared actual, e.violation ≠ .inconsistentReadonly declared actual) ∧
        ∀ backing, e.violation ≠ .invalidEnumeration backing) ∧
    ∃ s, Printer.print ⟨false⟩ t = .ok s := by
  have ht := h.everywhere
  obtain ⟨s, hs⟩ := ht.exists_annotationText
  refine ⟨fun p u hu => ⟨ht p u hu, fun e he => ?_⟩, s, ?_⟩
  · exact (hu.everywhere ht).shapeError?_of_isCoherent he
  · rw [Printer.print_unchecked_eq, hs]
    rfl

/-- An alternative alone, in which two members of one name are marked before it is given a mixin. -/
theorem Built.coherent_and_printed_of_single :
    let a : Member Ty := (Member.plain "a" (.enumeration .int32)).asReadonly
    let b : Member Ty := (Member.plain "a" (.primitive .void)).asReadonly.asOptional
    let u := ((ObjectLiteral.ofMembers [a, b]).withMixins [.reference "Base"]).ty
    let t := Ty.union [u]
    t.Built ∧ t.shapeError? = some ⟨[], .tooFewAlternatives 1⟩ ∧
      u.shapeError? = some ⟨[], .duplicateMember "a"⟩ ∧ u.isCoherent = true ∧
      ∃ s, Printer.print ⟨false⟩ t = .ok s := by
  intro a b u t
  have ha : a.Built := .asReadonly (.plain "a" .int32Enumeration)
  have hb : b.Built := .asOptional (.asReadonly (.plain "a" (.primitive .void)))
  have hmembers : ∀ m ∈ [a, b], m.Built := by simp [ha, hb]
  have hmixins : ∀ v ∈ [Ty.reference "Base"], v.Built := by simp [Built.reference]
  have hu : u.Built := .object (.withMixins (.ofMembers hmembers) hmixins)
  have ht : t.Built := .union (by simpa using hu)
  obtain ⟨hparts, hprint⟩ := ht.coherent_and_printed
  have hreach : t.Reaches [.alternative 0] u := .cons (.alternative rfl) (.nil u)
  exact ⟨ht, by decide +kernel, by decide +kernel, (hparts _ u hreach).1, hprint⟩

end Ty

end NativeTypes
