import NativeTypes.Proofs.Annotation.Spelled

/-! # Plain types are told apart by their annotations

Annotations of arbitrary types are ambiguous: a list of immutable lists is written like an immutable
list of lists, a list of functions like a function to a list, an alternative `undefined` like an
optional type, and a name may be any text. A *plain* type has none of these anywhere
(`Ty.isPlainNode`). Plain types are spelled out, so that two well-shaped ones with one annotation
have one phrase; a plain type can be found again from its phrase (`Annotation.Phrase.ty?`), so that
the two are equal (`Printer.eq_of_print_eq`). -/

namespace NativeTypes

open Annotation (Phrase Core front_bracketed isIdentifier isWordChar named_annotationText)

namespace Ty

/-! ### Plain types -/

/-- Whether the outermost constructor is that of functions. -/
def isFunction : Ty → Bool
  | function .. => true
  | _ => false

/-- Whether the outermost constructor is that of lists that may not change. -/
def isReadonlyArray : Ty → Bool
  | array true _ => true
  | _ => false

/-- Whether there are two alternatives, the second of which is the primitive `undefined`. -/
def isOptionalPair : List Ty → Bool
  | [_, primitive .undefined] => true
  | _ => false

/-- Whether a type is plain, its parts aside. -/
def isPlainNode : Ty → Bool
  | reference n => isIdentifier n && !printedNames.contains n && n != "readonly"
  | array r t => !t.isFunction && (r || !t.isReadonlyArray)
  | withDefault _ v => v.toList.all isWordChar
  | objectLiteral _ ms _ => ms.all fun m => isIdentifier m.name
  | union ts => !isOptionalPair ts
  | _ => true

/-- **A plain type**: all its sub-trees are plain. -/
def IsPlain (t : Ty) : Prop :=
  ∀ p s, t.Reaches p s → s.isPlainNode = true

theorem isPlain_iff {t : Ty} :
    t.IsPlain ↔ t.isPlainNode = true ∧ ∀ c ∈ t.children, c.2.IsPlain :=
  everywhere_iff

instance : DecidablePred IsPlain :=
  inferInstanceAs (DecidablePred (Everywhere isPlainNode))

/-- A plain type is spelled out. -/
theorem IsPlain.everywhere_isSpelledNode {t : Ty} (h : t.IsPlain) :
    t.Everywhere isSpelledNode := by
  refine Everywhere.mono (P := isPlainNode) h fun s hs => ?_
  cases s with
  | reference n => exact (Bool.and_eq_true_iff.1 hs).1
  | withDefault | objectLiteral => exact hs
  | _ => rfl

/-! ### Lists of plain types -/

theorem isReadonlyArray_eq_false_of_isPlain {t : Ty} (h : (array false t).IsPlain) :
    t.isReadonlyArray = false := by
  have := (isPlain_iff.1 h).1
  simp only [isPlainNode, Bool.and_eq_true, Bool.false_or, Bool.not_eq_true'] at this
  exact this.2

/-- Where the outermost list may change, so may all lists inside it. -/
theorem front_phrase_eq_zero : ∀ {t : Ty}, t.IsPlain → t.isReadonlyArray = false →
    t.phrase.front = 0
  | array false t, h, _ => by
    have ht := front_phrase_eq_zero ((isPlain_iff.1 h).2 (.element, t) (List.mem_singleton.2 rfl))
      (isReadonlyArray_eq_false_of_isPlain h)
    rw [phrase]
    exact (front_bracketed t.phrase).trans ht
  | array true t, _, h => by cases h
  | primitive _, _, _ | predefined _, _, _ | reference _, _, _ | operator .., _, _
  | withDefault .., _, _ | function .., _, _ | objectLiteral .., _, _ | union _, _, _
  | enumeration _, _, _ | event .., _, _ => by
    rw [phrase]
    rfl

/-- The phrase of a plain type has an arrow at its core only if the type is a function. -/
theorem isFunction_of_isArrow : ∀ {t : Ty}, t.IsPlain → t.phrase.core.isArrow = true →
    t.isFunction = true
  | function .., _, _ => rfl
  | array r t, h, hc => by
    rw [phrase, Annotation.isArrow_core_listed] at hc
    obtain ⟨hnode, hparts⟩ := isPlain_iff.1 h
    have hf := isFunction_of_isArrow (hparts (.element, t) (List.mem_singleton.2 rfl)) hc
    simp [isPlainNode, hf] at hnode
  | operator o t, _, hc => by
    rw [phrase] at hc
    cases o <;> cases hc
  | objectLiteral ts ms f, _, hc => by
    rw [phrase, phrases_eq_map] at hc
    cases ts <;> cases hc
  | primitive _, _, hc | predefined _, _, hc | reference _, _, hc | withDefault .., _, hc
  | union _, _, hc | enumeration _, _, hc | event .., _, hc => by
    rw [phrase] at hc
    cases hc

/-! ### Plain types are found again -/

/-- **A plain type is found again from its phrase** when its parts are. -/
theorem ty?_phrase_of_children {t : Ty} (hr : t.Rule) (hp : t.IsPlain)
    (h : ∀ c ∈ t.children, c.2.phrase.ty? = some c.2) : t.phrase.ty? = some t := by
  have hnode := (isPlain_iff.1 hp).1
  cases t with
  | primitive p =>
    rw [phrase, Annotation.ty?_alone, Core.ty?, Annotation.named_annotationText]
  | predefined p => rw [phrase, Annotation.ty?_alone, Core.ty?, Annotation.named_name]
  | reference n =>
    rw [phrase, Annotation.ty?_alone, Core.ty?,
      Annotation.named_of_not_mem (not_mem_namedTypes (Bool.and_eq_true_iff.1 hnode).1)]
  | array r t =>
    have ht := h (.element, t) (List.mem_singleton.2 rfl)
    rw [phrase]
    cases r with
    | true => exact Annotation.ty?_listed_true ht
    | false =>
      have hpart := (isPlain_iff.1 hp).2 (.element, t) (List.mem_singleton.2 rfl)
      refine Annotation.ty?_bracketed ht
        (front_phrase_eq_zero hpart (isReadonlyArray_eq_false_of_isPlain hp)) ?_
      cases hc : t.phrase.core.isArrow with
      | false => rfl
      | true => simp [isPlainNode, isFunction_of_isArrow hpart hc] at hnode
  | operator o t =>
    have ht := h (.element, t) (List.mem_singleton.2 rfl)
    rw [phrase, Annotation.ty?_alone]
    cases o with
    | promise | readonly =>
      rw [Operator.core, Core.ty?, ht]
      rfl
    | optional =>
      have hu : Annotation.undefinedPhrase.ty? = some (primitive .undefined) :=
        congrArg some (named_annotationText .undefined)
      rw [Operator.core, Core.ty?, Annotation.tys?, ht, Annotation.tys?, hu]
      rfl
  | withDefault t v =>
    have ht := h (.element, t) (List.mem_singleton.2 rfl)
    rw [phrase, Annotation.ty?_alone, Core.ty?, ht]
    rfl
  | function t ts =>
    have ht := h (.result, t) List.mem_cons_self
    have hts := (forall_mem_numbered (P := fun t => t.phrase.ty? = some t)).1
      fun c hc => h c (List.mem_cons_of_mem _ hc)
    rw [phrase, Annotation.ty?_alone, Core.ty?, Annotation.tys?_phrases hts, ht]
    rfl
  | objectLiteral ts ms f =>
    have hts := Annotation.tys?_phrases
      (forall_mem_numbered.1 fun c hc => h c (List.mem_append_left _ hc))
    have hms := Annotation.members?_memberPhrases fun m hm =>
      h (.member m.name, m.type) (List.mem_append_right _ (List.mem_map.2 ⟨m, hm, rfl⟩))
    have hf : f = Member.allReadonly ms :=
      Bool.eq_iff_iff.2 (hr.2.trans Member.allReadonly_iff.symm)
    rw [phrase, Annotation.ty?_alone, Annotation.ty?_objectCore hts hms, objectOf, hf]
  | union ts =>
    have hts := Annotation.tys?_phrases (forall_mem_numbered.1 h)
    rw [phrase, Annotation.ty?_alone, Core.ty?, hts, Option.map_some,
      Annotation.alternatives_eq_union]
    rintro t rfl
    cases hnode
  | enumeration p =>
    rw [phrase, Annotation.ty?_alone, Core.ty?]
    rcases hr with rfl | rfl <;> decide
  | event e t =>
    have ht := h (.element, t) (List.mem_singleton.2 rfl)
    rw [phrase, Annotation.ty?_alone, Core.ty?, ht]
    cases e <;> rfl

/-! ### Plain well-shaped types -/

/-- **A plain well-shaped type is found again from its phrase.** -/
theorem ty?_phrase_of_isPlain {t : Ty} (hr : t.shapeError? = none) (hp : t.IsPlain) :
    t.phrase.ty? = some t := by
  induction t using induction_children with
  | step t ih =>
    obtain ⟨hrule, hchildren⟩ := shapeError?_eq_none.1 hr
    exact ty?_phrase_of_children hrule hp fun c hc =>
      ih c hc (hchildren c hc) ((isPlain_iff.1 hp).2 c hc)

/-- **Two plain well-shaped types with one annotation are equal.** -/
theorem eq_of_annotationText_eq {t u : Ty} {s : String} (ht : t.shapeError? = none)
    (hu : u.shapeError? = none) (hpt : t.IsPlain) (hpu : u.IsPlain)
    (h : t.annotationText = .ok s) (h' : u.annotationText = .ok s) : t = u := by
  have hphrase : t.phrase = u.phrase := phrase_eq_of_annotationText_eq ht hu
    hpt.everywhere_isSpelledNode hpu.everywhere_isSpelledNode h h'
  have htu := ty?_phrase_of_isPlain ht hpt
  rw [hphrase, ty?_phrase_of_isPlain hu hpu] at htu
  exact (Option.some.inj htu).symm

end Ty

namespace Printer

/-- **Printing is unambiguous on plain types**: two of them that are printed with the same text,
which only well-shaped ones are, are equal in all their parts, names, defaults and flags. -/
theorem eq_of_print_eq {t u : Ty} {s : String} (ht : t.IsPlain) (hu : u.IsPlain)
    (h : ({} : Printer).print t = .ok s) (h' : ({} : Printer).print u = .ok s) : t = u := by
  rw [print_eq_ok_iff] at h h'
  exact Ty.eq_of_annotationText_eq h.1 h'.1 ht hu h.2 h'.2

/-- Lists of either kind, an alternative `undefined` beside an optional type, and a member that is
named like the word before it. -/
theorem eq_of_print_eq_nested :
    let alternatives := Ty.union [.reference "Base", .primitive .undefined,
      .event .direct (.enumeration .int32)]
    let result := Ty.operator .promise (.withDefault (.primitive .float) "1.5e+3")
    let members : List (Member Ty) :=
      [⟨"readonly", .operator .optional (.predefined .colorValue), true, true⟩]
    let t := Ty.function result [.array true (.array false alternatives),
      .objectLiteral [.reference "Base"] members true]
    let u := Ty.function result [.array true (.array false alternatives),
      .objectOf [.reference "Base"] members]
    let s := "(readonly (Base | undefined | DirectEventHandler<\"enum of Int32\">)[][], " ++
      "(Base & \x7breadonly readonly?: (ColorValue | undefined)\x7d)) -> " ++
      "Promise<WithDefault<float, 1.5e+3>>"
    t.IsPlain ∧ u.IsPlain ∧ ({} : Printer).print t = .ok s ∧ ({} : Printer).print u = .ok s ∧
      t = u := by
  intro alternatives result members t u s
  have ht : t.IsPlain := by decide +kernel
  have hu : u.IsPlain := by decide +kernel
  have h : ({} : Printer).print t = .ok s := by decide +kernel
  have h' : ({} : Printer).print u = .ok s := by decide +kernel
  exact ⟨ht, hu, h, h', eq_of_print_eq ht hu h h'⟩

/-- An immutable list of lists is written like a list of immutable lists, which is not plain. -/
example :
    let t := Ty.array true (.array false (.primitive .string))
    let u := Ty.array false (.array true (.primitive .string))
    ({} : Printer).print t = ({} : Printer).print u ∧ t.IsPlain ∧ ¬ u.IsPlain := by
  decide +kernel

end Printer

end NativeTypes
