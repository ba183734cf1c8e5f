import Mathlib.Data.List.Forall2
import Mathlib.Logic.Relation
import NativeTypes.Proofs.Annotation.Spelled
import NativeTypes.Proofs.Frames

/-! # Types that are written alike

The annotations of well-shaped types that are spelled out are ambiguous in three ways: a list of
immutable lists is written like an immutable list of lists, a list of functions like a function to a
list, and an optional type like two alternatives of which the second is `undefined`. Two types are
*alike* (`Ty.Alike`) if they differ in such places only.

* `Ty.Alike.text_phrase_eq`: types that are alike are written with the same text.
* `Ty.exists_ty?_phrase`: the type that is read back from the phrase of a type is like it.
* `Ty.annotationText_eq_iff_alike`: **one text belongs to the types that are alike, and to no
  others.**
* `Printer.print_alternatives_eq_iff`: what this says of the alternatives of a union. -/

namespace NativeTypes

open Annotation (Phrase Core alternatives bracketed_of_not_isArrow lists named_annotationText
  named_name text_alone text_listed ty?_alone)

namespace Ty

/-! ### Alike types -/

/-- **Two types that are written with one text**, the difference being in one place. -/
inductive Respells : Ty → Ty → Prop
  | listOfReadonly (t : Ty) : Respells (array false (array true t)) (array true (array false t))
  | listOfFunctions (t : Ty) (ts : List Ty) :
      Respells (array false (function t ts)) (function (array false t) ts)
  | undefinedLast (t : Ty) :
      Respells (union [t, primitive .undefined]) (operator .optional t)
  | inside (F : Frame) {t u : Ty} (h : Respells t u) : Respells (F.fill t) (F.fill u)

/-- **Types that differ in the places only where annotations are ambiguous.** -/
def Alike : Ty → Ty → Prop :=
  Relation.EqvGen Respells

theorem Respells.alike {t u : Ty} (h : Respells t u) : Alike t u :=
  Relation.EqvGen.rel t u h

namespace Alike

variable {t u v : Ty}

theorem refl (t : Ty) : Alike t t :=
  Relation.EqvGen.refl t

theorem symm (h : Alike t u) : Alike u t :=
  Relation.EqvGen.symm t u h

theorem trans (h : Alike t u) (h' : Alike u v) : Alike t v :=
  Relation.EqvGen.trans t u v h h'

/-- Alike types in the same place. -/
theorem fill (F : Frame) (h : Alike t u) : Alike (F.fill t) (F.fill u) := by
  induction h with
  | rel t u h => exact (Respells.inside F h).alike
  | refl t => exact refl _
  | symm t u _ ih => exact ih.symm
  | trans t u v _ _ ih ih' => exact ih.trans ih'

/-- Alike items in the same places of a list, which are exchanged one after the other. -/
theorem list {α : Type} {R : α → α → Prop} {f : List α → Ty}
    (hf : ∀ left right a b, R a b → Alike (f (left ++ a :: right)) (f (left ++ b :: right)))
    {as bs : List α} (h : List.Forall₂ R as bs) (left : List α) :
    Alike (f (left ++ as)) (f (left ++ bs)) := by
  induction h generalizing left with
  | nil => exact refl _
  | @cons a b as bs hab _ ih =>
    have hrest := ih (left ++ [b])
    rw [List.append_assoc, List.append_assoc] at hrest
    exact (hf left as a b hab).trans hrest

/-- Alike types in as many lists that may not change. -/
theorem iterate (h : Alike t u) (k : Nat) :
    Alike ((array true)^[k] t) ((array true)^[k] u) := by
  induction k with
  | zero => exact h
  | succ k ih =>
    rw [Function.iterate_succ_apply', Function.iterate_succ_apply']
    exact ih.fill (.array true)

end Alike

/-- A list of immutable lists is like immutable lists of a list. -/
theorem alike_array_iterate (k : Nat) (t : Ty) :
    Alike (array false ((array true)^[k] t)) ((array true)^[k] (array false t)) := by
  induction k with
  | zero => exact .refl _
  | succ k ih =>
    rw [Function.iterate_succ_apply', Function.iterate_succ_apply']
    exact (Respells.listOfReadonly _).alike.trans (ih.fill (.array true))

/-! ### Alike types have one text -/

theorem text_phrase_fill {t u : Ty} (F : Frame) (h : t.phrase.text = u.phrase.text) :
    (F.fill t).phrase.text = (F.fill u).phrase.text := by
  have hlist : ∀ left right : List Ty, Annotation.texts (phrases (left ++ t :: right)) =
      Annotation.texts (phrases (left ++ u :: right)) := by
    intro left right
    simp [phrases_eq_map, Annotation.texts_eq_map, h]
  cases F with
  | array r => simp only [Frame.fill, phrase, text_listed, h]
  | operator o => simp only [Frame.fill, phrase, text_alone, ← Operator.text_core, h]
  | withDefault v | event e => simp only [Frame.fill, phrase, text_alone, Core.text, h]
  | result ts => simp only [Frame.fill, phrase, text_alone, Core.text, h]
  | argument u left right | alternative left right =>
    simp only [Frame.fill, phrase, text_alone, Core.text, hlist]
  | mixin left right ms f =>
    simp only [Frame.fill, phrase, text_alone, Annotation.text_objectCore, hlist]
  | member ts left right n o r f =>
    have hmember : Annotation.memberTexts (memberPhrases (left ++ ⟨n, t, o, r⟩ :: right)) =
        Annotation.memberTexts (memberPhrases (left ++ ⟨n, u, o, r⟩ :: right)) := by
      simp [memberPhrases_eq_map, Annotation.memberTexts_eq_map, Member.text, h]
    simp only [Frame.fill, phrase, text_alone, Annotation.text_objectCore, hmember]

theorem Respells.text_phrase_eq {t u : Ty} (h : Respells t u) : t.phrase.text = u.phrase.text := by
  induction h with
  | listOfReadonly t => simp [phrase, text_listed, String.append_assoc]
  | listOfFunctions t ts => simp [phrase, text_listed, Core.text, String.append_assoc]
  | undefinedLast t =>
    have hu : (primitive .undefined).phrase = Annotation.undefinedPhrase := rfl
    rw [phrase, phrase, text_alone, text_alone, Operator.core, phrases, phrases, phrases, hu]
  | inside F _ ih => exact text_phrase_fill F ih

/-- **Types that are alike are written with the same text.** -/
theorem Alike.text_phrase_eq {t u : Ty} (h : Alike t u) : t.phrase.text = u.phrase.text := by
  induction h with
  | rel t u h => exact h.text_phrase_eq
  | refl t => rfl
  | symm t u _ ih => exact ih.symm
  | trans t u v _ _ ih ih' => exact ih.trans ih'

/-! ### What is read back is alike -/

/-- **One pair of brackets more** is read back as a list. -/
theorem exists_ty?_bracketed : ∀ {f : Phrase} {t : Ty}, f.Sound → f.ty? = some t →
    ∃ u, f.bracketed.ty? = some u ∧ Alike (array false t) u
  | .mk k (.arrow fs f) n, t, hf, ht => by
    -- as many pairs of brackets as words `readonly`: the further one goes to the result
    obtain rfl : n = k := Nat.le_antisymm (hf.2.2 rfl) hf.2.1
    rw [Phrase.ty?, Core.ty?] at ht
    simp only [Option.map_eq_some_iff, Option.bind_eq_some_iff] at ht
    obtain ⟨_, ⟨ts, hts, r, hr, rfl⟩, rfl⟩ := ht
    obtain ⟨u, hu, hru⟩ := exists_ty?_bracketed hf.1.2 hr
    refine ⟨(array true)^[n] (function u ts), ?_, ?_⟩
    · rw [Phrase.bracketed, Phrase.ty?, Core.ty?, hts, Option.bind_some, hu, Option.map_some,
        Option.map_some, lists, Nat.sub_self]
      rfl
    · rw [lists, Nat.sub_self]
      refine (alike_array_iterate n _).trans (Alike.iterate ?_ n)
      exact (Respells.listOfFunctions r ts).alike.trans (hru.fill (.result ts))
  | .mk k (.name _) n, t, hf, ht | .mk k (.applied ..) n, t, hf, ht | .mk k (.group ..) n, t, hf, ht
  | .mk k (.braces _) n, t, hf, ht => by
    rw [Phrase.ty?, Option.map_eq_some_iff] at ht
    obtain ⟨v, hv, rfl⟩ := ht
    refine ⟨lists k (n + 1) v, ?_, ?_⟩
    · rw [bracketed_of_not_isArrow rfl, Phrase.ty?, hv, Option.map_some]
    · rw [lists, lists, Nat.succ_sub hf.2.1, Function.iterate_succ_apply']
      exact alike_array_iterate k _

theorem alike_alternatives (ts : List Ty) : Alike (union ts) (alternatives ts) := by
  unfold alternatives
  split
  · exact (Respells.undefinedLast _).alike
  · exact .refl _

/-- Members that differ in their types only, which are alike. -/
def MembersAlike (m n : Member Ty) : Prop :=
  m.name = n.name ∧ m.optional = n.optional ∧ m.readonly = n.readonly ∧ Alike m.type n.type

theorem exists_tys?_phrases {ts : List Ty}
    (h : ∀ t ∈ ts, ∃ u, t.phrase.ty? = some u ∧ Alike t u) :
    ∃ us, Annotation.tys? (phrases ts) = some us ∧ List.Forall₂ Alike ts us := by
  induction ts with
  | nil => exact ⟨[], rfl, .nil⟩
  | cons t ts ih =>
    rw [List.forall_mem_cons] at h
    obtain ⟨u, hu, htu⟩ := h.1
    obtain ⟨us, hus, hts⟩ := ih h.2
    refine ⟨u :: us, ?_, .cons htu hts⟩
    rw [phrases, Annotation.tys?, hu, Option.bind_some, hus, Option.map_some]

theorem exists_members?_memberPhrases {ms : List (Member Ty)}
    (h : ∀ m ∈ ms, ∃ u, m.type.phrase.ty? = some u ∧ Alike m.type u) :
    ∃ ns, Annotation.members? (memberPhrases ms) = some ns ∧ List.Forall₂ MembersAlike ms ns := by
  induction ms with
  | nil => exact ⟨[], rfl, .nil⟩
  | cons m ms ih =>
    rw [List.forall_mem_cons] at h
    obtain ⟨u, hu, hmu⟩ := h.1
    obtain ⟨ns, hns, hms⟩ := ih h.2
    refine ⟨{ m with type := u } :: ns, ?_, .cons ⟨rfl, rfl, rfl, hmu⟩ hms⟩
    rw [memberPhrases, Annotation.members?, hu, Option.bind_some, hns, Option.map_some]

theorem allReadonly_eq_of_forall₂ {ms ns : List (Member Ty)} (h : List.Forall₂ MembersAlike ms ns) :
    Member.allReadonly ms = Member.allReadonly ns := by
  induction h with
  | nil => rfl
  | cons hmn _ ih =>
    rw [Member.allReadonly, Member.allReadonly, List.all_cons, List.all_cons, hmn.2.2.1]
    exact congrArg _ ih

theorem alike_objectLiteral {ts us : List Ty} {ms ns : List (Member Ty)} (f : Bool)
    (ht : List.Forall₂ Alike ts us) (hm : List.Forall₂ MembersAlike ms ns) :
    Alike (objectLiteral ts ms f) (objectLiteral us ns f) := by
  have hmixins : Alike (objectLiteral ts ms f) (objectLiteral us ms f) :=
    Alike.list (f := (objectLiteral · ms f))
      (fun left right _ _ h => h.fill (.mixin left right ms f)) ht []
  have hmembers : Alike (objectLiteral us ms f) (objectLiteral us ns f) := by
    refine Alike.list (f := (objectLiteral us · f)) (fun left right m n h => ?_) hm []
    obtain ⟨v, t, o, r⟩ := m
    obtain ⟨w, u, q, a⟩ := n
    obtain ⟨rfl, rfl, rfl, h⟩ := h
    exact h.fill (.member us left right v o r f)
  exact hmixins.trans hmembers

/-- **What is read back is alike** when this is so of the parts. -/
theorem exists_ty?_phrase_of_children {t : Ty} (hr : t.Rule) (hs : t.isSpelledNode = true)
    (hsound : ∀ c ∈ t.children, c.2.phrase.Sound)
    (h : ∀ c ∈ t.children, ∃ u, c.2.phrase.ty? = some u ∧ Alike c.2 u) :
    ∃ u, t.phrase.ty? = some u ∧ Alike t u := by
  cases t with
  | primitive p =>
    exact ⟨_, by rw [phrase, ty?_alone, Core.ty?, named_annotationText], .refl _⟩
  | predefined p => exact ⟨_, by rw [phrase, ty?_alone, Core.ty?, named_name], .refl _⟩
  | reference n =>
    have hn := Annotation.named_of_not_mem (not_mem_namedTypes hs)
    exact ⟨_, by rw [phrase, ty?_alone, Core.ty?, hn], .refl _⟩
  | array r t =>
    obtain ⟨u, hu, htu⟩ := h (.element, t) (List.mem_singleton.2 rfl)
    rw [phrase]
    cases r with
    | true => exact ⟨_, Annotation.ty?_listed_true hu, htu.fill (.array true)⟩
    | false =>
      obtain ⟨v, hv, huv⟩ :=
        exists_ty?_bracketed (hsound (.element, t) (List.mem_singleton.2 rfl)) hu
      exact ⟨v, hv, (htu.fill (.array false)).trans huv⟩
  | operator o t =>
    obtain ⟨u, hu, htu⟩ := h (.element, t) (List.mem_singleton.2 rfl)
    refine ⟨operator o u, ?_, htu.fill (.operator o)⟩
    rw [phrase, ty?_alone]
    cases o with
    | promise | readonly =>
      rw [Operator.core, Core.ty?, hu]
      rfl
    | optional =>
      have hundefined : Annotation.undefinedPhrase.ty? = some (primitive .undefined) :=
        congrArg some (named_annotationText .undefined)
      rw [Operator.core, Core.ty?, Annotation.tys?, hu, Annotation.tys?, hundefined]
      rfl
  | withDefault t v =>
    obtain ⟨u, hu, htu⟩ := h (.element, t) (List.mem_singleton.2 rfl)
    refine ⟨withDefault u v, ?_, htu.fill (.withDefault v)⟩
    rw [phrase, ty?_alone, Core.ty?, hu]
    rfl
  | function t ts =>
    obtain ⟨u, hu, htu⟩ := h (.result, t) List.mem_cons_self
    obtain ⟨us, hus, hts⟩ := exists_tys?_phrases
      ((forall_mem_numbered (P := fun t => ∃ u, t.phrase.ty? = some u ∧ Alike t u)).1
        fun c hc => h c (List.mem_cons_of_mem _ hc))
    refine ⟨function u us, ?_, (htu.fill (.result ts)).trans ?_⟩
    · rw [phrase, ty?_alone, Core.ty?, hus, Option.bind_some, hu, Option.map_some]
    · exact Alike.list (fun left right _ _ h => h.fill (.argument u left right)) hts []
  | objectLiteral ts ms f =>
    obtain ⟨us, hus, hts⟩ := exists_tys?_phrases
      ((forall_mem_numbered (P := fun t => ∃ u, t.phrase.ty? = some u ∧ Alike t u)).1
        fun c hc => h c (List.mem_append_left _ hc))
    obtain ⟨ns, hns, hms⟩ := exists_members?_memberPhrases fun m hm =>
      h (.member m.name, m.type) (List.mem_append_right _ (List.mem_map.2 ⟨m, hm, rfl⟩))
    have hf : f = Member.allReadonly ns :=
      (Bool.eq_iff_iff.2 (hr.2.trans Member.allReadonly_iff.symm)).trans
        (allReadonly_eq_of_forall₂ hms)
    refine ⟨objectOf us ns, ?_, ?_⟩
    · rw [phrase, ty?_alone, Annotation.ty?_objectCore hus hns]
    · rw [objectOf, ← hf]
      exact alike_objectLiteral f hts hms
  | union ts =>
    obtain ⟨us, hus, hts⟩ := exists_tys?_phrases (forall_mem_numbered.1 h)
    refine ⟨alternatives us, ?_, Alike.trans ?_ (alike_alternatives us)⟩
    · rw [phrase, ty?_alone, Core.ty?, hus, Option.map_some]
    · exact Alike.list (fun left right _ _ h => h.fill (.alternative left right)) hts []
  | enumeration p =>
    refine ⟨enumeration p, ?_, .refl _⟩
    rw [phrase, ty?_alone, Core.ty?]
    rcases hr with rfl | rfl <;> decide
  | event e t =>
    obtain ⟨u, hu, htu⟩ := h (.element, t) (List.mem_singleton.2 rfl)
    refine ⟨event e u, ?_, htu.fill (.event e)⟩
    rw [phrase, ty?_alone, Core.ty?, hu]
    cases e <;> rfl

/-- **The type that is read back from the phrase of a type is like it.** -/
theorem exists_ty?_phrase {t : Ty} (hr : t.shapeError? = none) (hs : t.Everywhere isSpelledNode) :
    ∃ u, t.phrase.ty? = some u ∧ Alike t u := by
  induction t using induction_children with
  | step t ih =>
    obtain ⟨hrule, hchildren⟩ := shapeError?_eq_none.1 hr
    obtain ⟨hnode, hparts⟩ := everywhere_iff.1 hs
    exact exists_ty?_phrase_of_children hrule hnode
      (fun c hc => sound_phrase (hchildren c hc) (hparts c hc))
      (fun c hc => ih c hc (hchildren c hc) (hparts c hc))

/-- **Two well-shaped types that are spelled out have one annotation exactly if they are alike.** -/
theorem annotationText_eq_iff_alike {t u : Ty} {s s' : String} (ht : t.shapeError? = none)
    (hu : u.shapeError? = none) (hst : t.Everywhere isSpelledNode)
    (hsu : u.Everywhere isSpelledNode) (h : t.annotationText = .ok s)
    (h' : u.annotationText = .ok s') : s = s' ↔ Alike t u := by
  constructor
  · rintro rfl
    obtain ⟨v, hv, htv⟩ := exists_ty?_phrase ht hst
    obtain ⟨w, hw, huw⟩ := exists_ty?_phrase hu hsu
    rw [phrase_eq_of_annotationText_eq ht hu hst hsu h h', hw] at hv
    cases hv
    exact htv.trans huw.symm
  · intro hl
    rw [eq_text_of_annotationText t h, eq_text_of_annotationText u h', hl.text_phrase_eq]

/-- Whether a type has no default and its names are spelled out, its parts aside. -/
def isSpelledWithoutDefault : Ty → Bool
  | withDefault .. => false
  | t => t.isSpelledNode

theorem Everywhere.isSpelledNode {t : Ty} (h : t.Everywhere isSpelledWithoutDefault) :
    t.Everywhere isSpelledNode :=
  h.mono fun s hs => by
    cases s with
    | withDefault => cases hs
    | _ => exact hs

end Ty

namespace Printer

open Ty

/-- **Two alternatives of a union differ, and are printed with one text exactly if they are
alike**, in a well-shaped type without defaults whose names are spelled out. -/
theorem print_alternatives_eq_iff {t : Ty} (ht : t.shapeError? = none)
    (hs : t.Everywhere isSpelledWithoutDefault) {p : Path} {ts : List Ty}
    (hp : t.Reaches p (.union ts)) {i j : Nat} {a b : Ty} (hi : ts[i]? = some a)
    (hj : ts[j]? = some b) (hij : i ≠ j) (q : Printer) :
    a ≠ b ∧ ∃ s s', q.print a = .ok s ∧ q.print b = .ok s' ∧ (s = s' ↔ a.Alike b) := by
  obtain ⟨hrule, hparts⟩ := shapeError?_eq_none.1 (hp.shapeError?_eq_none ht)
  obtain ⟨-, hspelled⟩ := everywhere_iff.1 (hp.everywhere hs.isSpelledNode)
  have part : ∀ {k : Nat} {c : Ty}, ts[k]? = some c →
      c.shapeError? = none ∧ c.Everywhere isSpelledNode ∧
        ∃ s, q.print c = .ok s ∧ c.annotationText = .ok s := by
    intro k c hk
    have hc : (.alternative k, c) ∈ (Ty.union ts).children := mem_numbered.2 ⟨k, hk, rfl⟩
    obtain ⟨s, hprint⟩ := print_of_wellShaped (hparts _ hc)
    exact ⟨hparts _ hc, hspelled _ hc, s, hprint q, (print_eq_ok_iff.1 (hprint {})).2⟩
  obtain ⟨ha, hsa, s, hprint, htext⟩ := part hi
  obtain ⟨hb, hsb, s', hprint', htext'⟩ := part hj
  refine ⟨fun hab => hij ?_, s, s', hprint, hprint',
    annotationText_eq_iff_alike ha hb hsa hsb htext htext'⟩
  exact (List.getElem?_inj (List.getElem?_eq_some_iff.1 hi).1 hrule.2).1 (hi.trans (hab ▸ hj.symm))

/-- A reference that is named like a word of the syntax, beside a list of immutable lists. -/
theorem print_alternatives_eq_iff_of_readonly :
    let a := Ty.operator .promise (.array false (.array true (.reference "readonly")))
    let b := Ty.operator .promise (.array true (.array false (.reference "readonly")))
    let t := Ty.array false (.union [a, .reference "readonly", b])
    t.shapeError? = none ∧ t.Everywhere isSpelledWithoutDefault ∧
      t.Reaches [.element] (.union [a, .reference "readonly", b]) ∧
      a ≠ b ∧ ∃ s s', ({} : Printer).print a = .ok s ∧ ({} : Printer).print b = .ok s' ∧
        (s = s' ↔ a.Alike b) := by
  intro a b t
  have ht : t.shapeError? = none := by decide +kernel
  have hs : t.Everywhere isSpelledWithoutDefault := by decide +kernel
  have hp : t.Reaches [.element] (.union [a, .reference "readonly", b]) :=
    .cons (.array ..) (.nil _)
  exact ⟨ht, hs, hp, print_alternatives_eq_iff ht hs hp (i := 0) (j := 2) rfl rfl (by decide) {}⟩

/-- Two alternatives that differ in which of two lists may not change have one text. -/
theorem print_alternatives_eq_of_arrays :
    let a := Ty.array false (.array true (.primitive .string))
    let b := Ty.array true (.array false (.primitive .string))
    let t := Ty.union [a, b]
    t.shapeError? = none ∧ t.Everywhere isSpelledWithoutDefault ∧
      ({} : Printer).print a = .ok "readonly string[][]" ∧
      ({} : Printer).print b = .ok "readonly string[][]" ∧
      ({} : Printer).print t = .ok "(readonly string[][] | readonly string[][])" := by
  decide +kernel

end Printer

end NativeTypes
