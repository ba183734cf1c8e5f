import NativeTypes.Proofs.Annotation.Reading
import NativeTypes.Proofs.Annotation.Unambiguous
import NativeTypes.Proofs.Printing

/-! # Types that are spelled out

The annotation of a type shows names and defaults as they are. A type is *spelled out* if they
cannot be taken for anything else: names are identifiers, references are not named like a type that
has a name of its own, and defaults are words (`Ty.isSpelledNode`). The phrase of such a type, if it
is well-shaped, can be read back (`Ty.sound_phrase`), so that two of them with one annotation have
one phrase (`Ty.phrase_eq_of_annotationText_eq`). -/

namespace NativeTypes

open Annotation (Phrase Core IsWord IsName isIdentifier startsIdentifier continuesIdentifier
  isWordChar soundAll_iff soundMembers_iff sound_objectCore sound_listed sound_alone startsIn_nil)

namespace Ty

/-- The texts that stand for primitive and predefined types. -/
def printedNames : List String :=
  Primitive.all.map (·.annotationText) ++ Predefined.all.map (·.name)

/-- Whether the names and the default of a type are spelled out, its parts aside. -/
def isSpelledNode : Ty → Bool
  | reference n => isIdentifier n && !printedNames.contains n
  | withDefault _ v => v.toList.all isWordChar
  | objectLiteral _ ms _ => ms.all fun m => isIdentifier m.name
  | _ => true

/-! ### The phrases of spelled types are sound -/

theorem isName_annotationText (p : Primitive) : IsName p.annotationText := by
  cases p with
  | numberLiterals => exact .inr ⟨"number literals".toList, rfl, by decide⟩
  | stringLiterals => exact .inr ⟨"string literals".toList, rfl, by decide⟩
  | _ => exact .inl (by decide)

theorem isName_name (p : Predefined) : IsName p.name :=
  .inl (by cases p <;> decide)

/-- An identifier is a word. -/
theorem isWord_of_isIdentifier {n : String} (h : isIdentifier n = true) : n ≠ "" ∧ IsWord n := by
  unfold isIdentifier at h
  split at h
  · cases h
  · rename_i c w hn
    obtain ⟨hc, hw⟩ := Bool.and_eq_true_iff.1 h
    have hword : ∀ {d}, Annotation.continuesIdentifier d = true → isWordChar d = true :=
      fun hd => by simp [isWordChar, hd]
    refine ⟨fun he => by simp [he] at hn, fun d hd => ?_⟩
    rw [hn] at hd
    rcases List.mem_cons.1 hd with rfl | hd
    · refine hword ?_
      simp only [startsIdentifier, Bool.or_eq_true] at hc
      simp only [continuesIdentifier, Char.isAlphanum, Bool.or_eq_true]
      exact hc.imp_left (.imp_left .inl)
    · exact hword (List.all_eq_true.1 hw d hd)

theorem soundAll_phrases {ts : List Ty} (h : ∀ t ∈ ts, t.phrase.Sound) :
    Annotation.SoundAll (phrases ts) := by
  rw [soundAll_iff, phrases_eq_map]
  exact List.forall_mem_map.2 h

theorem soundMembers_memberPhrases {ms : List (Member Ty)}
    (hn : ∀ m ∈ ms, isIdentifier m.name = true) (h : ∀ m ∈ ms, m.type.phrase.Sound) :
    Annotation.SoundMembers (memberPhrases ms) := by
  rw [soundMembers_iff, memberPhrases_eq_map]
  refine List.forall_mem_map.2 fun m hm => ?_
  obtain ⟨hne, hw⟩ := isWord_of_isIdentifier (hn m hm)
  exact ⟨hne, hw, h m hm⟩

/-- **The phrase of a type is sound** when those of its parts are. -/
theorem sound_phrase_of_children {t : Ty} (hr : t.Rule) (hs : t.isSpelledNode = true)
    (h : ∀ c ∈ t.children, c.2.phrase.Sound) : t.phrase.Sound := by
  cases t with
  | primitive p => exact sound_alone (isName_annotationText p)
  | predefined p => exact sound_alone (isName_name p)
  | reference n =>
    have hn : isIdentifier n = true := (Bool.and_eq_true_iff.1 hs).1
    exact sound_alone (.inl (isWord_of_isIdentifier hn))
  | array r t => exact sound_listed (h (.element, t) (List.mem_singleton.2 rfl)) r
  | operator o t =>
    have ht := h (.element, t) (List.mem_singleton.2 rfl)
    cases o with
    | promise | readonly => exact sound_alone ⟨by decide, by decide, ht, by simp⟩
    | optional =>
      have hu : Annotation.undefinedPhrase.Sound := sound_alone (isName_annotationText .undefined)
      exact sound_alone ⟨by decide, Nat.le_refl 2, ht, hu, trivial⟩
  | withDefault t v =>
    have ht := h (.element, t) (List.mem_singleton.2 rfl)
    refine sound_alone ⟨by decide, by decide, ht, fun w hw => ?_⟩
    cases hw
    exact List.all_eq_true.1 hs
  | function t ts =>
    have ht := h (.result, t) List.mem_cons_self
    have hts := (forall_mem_numbered (P := fun t => t.phrase.Sound)).1
      fun c hc => h c (List.mem_cons_of_mem _ hc)
    exact sound_alone ⟨soundAll_phrases hts, ht⟩
  | objectLiteral ts ms f =>
    have hts := soundAll_phrases
      (forall_mem_numbered.1 fun c hc => h c (List.mem_append_left _ hc))
    have hms := soundMembers_memberPhrases (List.all_eq_true.1 hs) fun m hm =>
      h (.member m.name, m.type) (List.mem_append_right _ (List.mem_map.2 ⟨m, hm, rfl⟩))
    exact sound_alone (sound_objectCore hts hms)
  | union ts =>
    have hts := soundAll_phrases (forall_mem_numbered.1 h)
    refine sound_alone ⟨by decide, ?_, hts⟩
    rw [phrases_eq_map, List.length_map]
    exact hr.1
  | enumeration p =>
    rcases hr with rfl | rfl
    · exact sound_alone (.inr ⟨"enum of string".toList, rfl, by decide⟩)
    · exact sound_alone (.inr ⟨"enum of Int32".toList, rfl, by decide⟩)
  | event e t =>
    have ht := h (.element, t) (List.mem_singleton.2 rfl)
    cases e <;> exact sound_alone ⟨by decide, by decide, ht, by simp⟩

/-- **The phrase of a well-shaped type that is spelled out is sound.** -/
theorem sound_phrase {t : Ty} (hr : t.shapeError? = none) (hs : t.Everywhere isSpelledNode) :
    t.phrase.Sound := by
  induction t using induction_children with
  | step t ih =>
    obtain ⟨hrule, hchildren⟩ := shapeError?_eq_none.1 hr
    obtain ⟨hnode, hparts⟩ := everywhere_iff.1 hs
    exact sound_phrase_of_children hrule hnode fun c hc => ih c hc (hchildren c hc) (hparts c hc)

/-- **Two such types with one annotation have one phrase.** -/
theorem phrase_eq_of_annotationText_eq {t u : Ty} {s : String} (ht : t.shapeError? = none)
    (hu : u.shapeError? = none) (hst : t.Everywhere isSpelledNode)
    (hsu : u.Everywhere isSpelledNode) (h : t.annotationText = .ok s)
    (h' : u.annotationText = .ok s) : t.phrase = u.phrase := by
  have htext : t.phrase.text.toList ++ [] = u.phrase.text.toList ++ [] := by
    rw [← eq_text_of_annotationText t h, ← eq_text_of_annotationText u h']
  have hends : Annotation.EndsPhrase [] := .inl (startsIn_nil _)
  exact (Phrase.separable (sound_phrase ht hst) (sound_phrase hu hsu) hends hends htext).1

/-! ### Names are found again -/

theorem not_mem_namedTypes {n : String} (h : (reference n).isSpelledNode = true) :
    n ∉ Annotation.namedTypes.map (·.1) := by
  simp only [isSpelledNode, Bool.and_eq_true, Bool.not_eq_true'] at h
  obtain ⟨hi, hn⟩ := h
  have hsplit : Annotation.namedTypes.map (·.1) =
      printedNames ++ ["\"enum of string\"", "\"enum of Int32\""] := rfl
  rw [hsplit, List.mem_append, not_or]
  refine ⟨fun hm => ?_, fun hm => ?_⟩
  · rw [List.contains_iff_mem.2 hm] at hn
    cases hn
  · simp only [List.mem_cons, List.not_mem_nil, or_false] at hm
    rcases hm with rfl | rfl <;> exact absurd hi (by decide)

end Ty

end NativeTypes
