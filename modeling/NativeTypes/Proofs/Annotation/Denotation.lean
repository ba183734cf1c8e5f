import NativeTypes.Proofs.Annotation.Phrase
import NativeTypes.Proofs.Except

/-! # The phrase of a type

`Ty.phrase` is what the annotation of a type says before it is a text: the annotation is the text of
the phrase (`Ty.eq_text_of_annotationText`). An optional type is a group of two alternatives, an
object literal with mixins is a group whose last part is in braces, and a list of functions is an
arrow to a list. -/

namespace NativeTypes

open Annotation (Phrase Core repeated)

namespace Annotation

/-- One pair of brackets more behind a phrase; behind an arrow, it is one behind the result. -/
def Phrase.bracketed : Phrase → Phrase
  | .mk k (.arrow fs f) n => .mk k (.arrow fs f.bracketed) n
  | .mk k c n => .mk k c (n + 1)

/-- The phrase of a list, from that of its items: a list that may not change has the word `readonly`
in front and a pair of brackets of its own. -/
def Phrase.listed : Bool → Phrase → Phrase
  | true, .mk k c n => .mk (k + 1) c (n + 1)
  | false, f => f.bracketed

/-- The name `undefined`, standing alone. -/
def undefinedPhrase : Phrase :=
  (Core.name Primitive.undefined.annotationText).alone

/-- The core of an object literal. -/
def objectCore : List Phrase → List (Member Phrase) → Core
  | [], members => .braces members
  | f :: fs, members => .group .amp (f :: fs ++ [(Core.braces members).alone])

theorem repeated_succ (n : Nat) (s : String) : repeated (n + 1) s = s ++ repeated n s := by
  simp [repeated, List.replicate_succ, String.join_cons]

theorem repeated_succ' (n : Nat) (s : String) : repeated (n + 1) s = repeated n s ++ s := by
  simp [repeated, List.replicate_succ', String.join_append]

@[simp]
theorem text_alone (c : Core) : c.alone.text = c.text := by
  simp [Core.alone, Phrase.text, repeated]

theorem bracketed_of_not_isArrow {k n : Nat} {c : Core} (h : c.isArrow = false) :
    (Phrase.mk k c n).bracketed = .mk k c (n + 1) := by
  cases c with
  | arrow => cases h
  | _ => rfl

theorem front_bracketed (f : Phrase) : f.bracketed.front = f.front := by
  obtain ⟨k, c, n⟩ := f
  cases c <;> rfl

theorem isArrow_core_listed (r : Bool) (f : Phrase) :
    (f.listed r).core.isArrow = f.core.isArrow := by
  obtain ⟨k, c, n⟩ := f
  cases r <;> cases c <;> rfl

theorem text_bracketed : ∀ f : Phrase, f.bracketed.text = f.text ++ "[]"
  | .mk k (.arrow fs f) n => by
    rw [Phrase.bracketed, Phrase.text, Core.text, text_bracketed f, Phrase.text, Core.text]
    simp only [String.append_assoc, ← repeated_succ', ← repeated_succ]
  | .mk k (.name _) n | .mk k (.applied ..) n | .mk k (.group ..) n | .mk k (.braces _) n => by
    rw [bracketed_of_not_isArrow rfl]
    simp only [Phrase.text, repeated_succ', String.append_assoc]

theorem text_listed (r : Bool) (f : Phrase) :
    (f.listed r).text = cond r "readonly " "" ++ f.text ++ "[]" := by
  cases r with
  | false => rw [Phrase.listed, text_bracketed, cond, String.empty_append]
  | true =>
    obtain ⟨k, c, n⟩ := f
    simp only [Phrase.listed, Phrase.text, cond, repeated_succ' n, repeated_succ k,
      String.append_assoc]

theorem sound_alone {c : Core} (h : c.Sound) : c.alone.Sound :=
  ⟨h, Nat.le_refl 0, fun _ => Nat.le_refl 0⟩

theorem sound_bracketed : ∀ f : Phrase, f.Sound → f.bracketed.Sound
  | .mk _ (.arrow _ f) _, h => ⟨⟨h.1.1, sound_bracketed f h.1.2⟩, h.2⟩
  | .mk _ (.name _) _, h | .mk _ (.applied ..) _, h | .mk _ (.group ..) _, h
  | .mk _ (.braces _) _, h => ⟨h.1, Nat.le_succ_of_le h.2.1, fun hc => by cases hc⟩

/-- **The phrase of a list can be read back** if that of its items can. -/
theorem sound_listed {f : Phrase} (h : f.Sound) (r : Bool) : (f.listed r).Sound := by
  cases r with
  | false => exact sound_bracketed f h
  | true =>
    obtain ⟨k, c, n⟩ := f
    exact ⟨h.1, Nat.succ_le_succ h.2.1, fun hc => Nat.succ_le_succ (h.2.2 hc)⟩

theorem texts_append (fs gs : List Phrase) : texts (fs ++ gs) = texts fs ++ texts gs := by
  simp only [texts_eq_map, List.map_append]

theorem text_objectCore (fs : List Phrase) (ms : List (Member Phrase)) :
    (objectCore fs ms).text =
      if (texts fs).isEmpty then Text.braces (String.intercalate ", " (memberTexts ms))
      else Text.parens (String.intercalate " & "
        (texts fs ++ [Text.braces (String.intercalate ", " (memberTexts ms))])) := by
  cases fs with
  | nil => rfl
  | cons f fs =>
    rw [objectCore, Core.text, texts_append, texts, texts, texts, text_alone]
    rfl

theorem sound_objectCore {fs : List Phrase} {ms : List (Member Phrase)} (hf : SoundAll fs)
    (hm : SoundMembers ms) : (objectCore fs ms).Sound := by
  cases fs with
  | nil => exact hm
  | cons f fs =>
    refine ⟨by decide, by simp, soundAll_iff.2 fun g hg => ?_⟩
    rcases List.mem_append.1 hg with hg | hg
    · exact soundAll_iff.1 hf g hg
    · rw [List.mem_singleton.1 hg]
      exact sound_alone hm

end Annotation

/-- The name of an event handler. -/
def EventPhase.handler : EventPhase → String
  | bubbling => "BubblingEventHandler"
  | direct => "DirectEventHandler"

/-- The core of a wrapped type. -/
def Operator.core (f : Phrase) : Operator → Core
  | promise => .applied "Promise" f none
  | readonly => .applied "Readonly" f none
  | optional => .group .bar [f, Annotation.undefinedPhrase]

theorem Operator.text_core (o : Operator) (f : Phrase) :
    o.annotationText f.text = (o.core f).text := by
  cases o with
  | promise | readonly => rfl
  | optional =>
    simp [annotationText, core, Core.text, Annotation.texts, Annotation.Joint.text,
      Annotation.undefinedPhrase, Primitive.annotationText, String.append_assoc]

namespace Ty

open Annotation (objectCore)

mutual

/-- **The phrase of a type.** -/
def phrase : Ty → Phrase
  | primitive p => (Core.name p.annotationText).alone
  | predefined p => (Core.name p.name).alone
  | reference n => (Core.name n).alone
  | array r t => t.phrase.listed r
  | operator o t => (o.core t.phrase).alone
  | withDefault t v => (Core.applied "WithDefault" t.phrase (some v)).alone
  | function t ts => (Core.arrow (phrases ts) t.phrase).alone
  | objectLiteral ts ms _ => (objectCore (phrases ts) (memberPhrases ms)).alone
  | union ts => (Core.group .bar (phrases ts)).alone
  | enumeration p => (Core.name ("\"enum of " ++ p.annotationText ++ "\"")).alone
  | event e t => (Core.applied e.handler t.phrase none).alone

/-- The phrases of types. -/
def phrases : List Ty → List Phrase
  | [] => []
  | t :: ts => t.phrase :: phrases ts

/-- The phrases of members. -/
def memberPhrases : List (Member Ty) → List (Member Phrase)
  | [] => []
  | ⟨n, t, o, r⟩ :: ms => ⟨n, t.phrase, o, r⟩ :: memberPhrases ms

end

theorem phrases_eq_map (ts : List Ty) : phrases ts = ts.map phrase := by
  induction ts with
  | nil => rfl
  | cons t ts ih => rw [phrases, ih, List.map_cons]

theorem memberPhrases_eq_map (ms : List (Member Ty)) :
    memberPhrases ms = ms.map fun m => ⟨m.name, m.type.phrase, m.optional, m.readonly⟩ := by
  induction ms with
  | nil => rfl
  | cons m ms ih => rw [memberPhrases, ih, List.map_cons]

mutual

/-- **The annotation of a type is the text of its phrase.** -/
theorem eq_text_of_annotationText : ∀ (t : Ty) {s : String}, t.annotationText = .ok s →
    s = t.phrase.text
  | primitive p, s, h | predefined p, s, h | reference n, s, h => by
    rw [annotationText] at h
    cases h
    rw [phrase, Annotation.text_alone, Core.text]
  | array r t, s, h => by
    simp only [annotationText, bind_eq_ok_iff, mapError_eq_ok_iff] at h
    obtain ⟨u, ht, h⟩ := h
    cases h
    rw [phrase, Annotation.text_listed, eq_text_of_annotationText t ht]
  | operator o t, s, h => by
    simp only [annotationText, bind_eq_ok_iff, mapError_eq_ok_iff] at h
    obtain ⟨u, ht, h⟩ := h
    cases h
    rw [phrase, Annotation.text_alone, eq_text_of_annotationText t ht]
    exact o.text_core t.phrase
  | withDefault t v, s, h => by
    simp only [annotationText, bind_eq_ok_iff, mapError_eq_ok_iff] at h
    obtain ⟨u, ht, h⟩ := h
    cases h
    rw [phrase, Annotation.text_alone, eq_text_of_annotationText t ht]
    rfl
  | function t ts, s, h => by
    simp only [annotationText, bind_eq_ok_iff, mapError_eq_ok_iff] at h
    obtain ⟨us, hts, u, ht, h⟩ := h
    cases h
    rw [phrase, Annotation.text_alone, eq_text_of_annotationText t ht,
      eq_texts_of_annotationTexts ts hts]
    rfl
  | objectLiteral ts ms f, s, h => by
    simp only [annotationText, bind_eq_ok_iff] at h
    obtain ⟨ns, hms, us, hts, h⟩ := h
    cases h
    rw [phrase, Annotation.text_alone, Annotation.text_objectCore,
      eq_texts_of_annotationTexts ts hts, eq_memberTexts_of_memberTexts ms hms]
  | union ts, s, h => by
    simp only [annotationText, bind_eq_ok_iff] at h
    obtain ⟨us, hts, h⟩ := h
    cases h
    rw [phrase, Annotation.text_alone, eq_texts_of_annotationTexts ts hts]
    rfl
  | enumeration p, s, h => by
    rw [annotationText] at h
    split at h
    · cases h
      rw [phrase, Annotation.text_alone, Core.text]
    · cases h
  | event e t, s, h => by
    simp only [annotationText, bind_eq_ok_iff, mapError_eq_ok_iff] at h
    obtain ⟨u, ht, h⟩ := h
    cases h
    rw [phrase, Annotation.text_alone, eq_text_of_annotationText t ht]
    cases e <;> rfl

/-- The annotations of types. -/
theorem eq_texts_of_annotationTexts : ∀ (ts : List Ty) {segment : Nat → Segment} {i : Nat}
    {ss : List String}, annotationTexts segment i ts = .ok ss → ss = Annotation.texts (phrases ts)
  | [], _, _, ss, h => by
    rw [annotationTexts] at h
    cases h
    rfl
  | t :: ts, _, _, ss, h => by
    simp only [annotationTexts, bind_eq_ok_iff, mapError_eq_ok_iff] at h
    obtain ⟨u, ht, us, hts, h⟩ := h
    cases h
    rw [phrases, Annotation.texts, eq_text_of_annotationText t ht,
      eq_texts_of_annotationTexts ts hts]

/-- The texts of members. -/
theorem eq_memberTexts_of_memberTexts : ∀ (ms : List (Member Ty)) {ss : List String},
    memberTexts ms = .ok ss → ss = Annotation.memberTexts (memberPhrases ms)
  | [], ss, h => by
    rw [memberTexts] at h
    cases h
    rfl
  | ⟨n, t, o, r⟩ :: ms, ss, h => by
    simp only [memberTexts, bind_eq_ok_iff, mapError_eq_ok_iff] at h
    obtain ⟨u, ht, us, hms, h⟩ := h
    cases h
    rw [memberPhrases, Annotation.memberTexts, eq_text_of_annotationText t ht,
      eq_memberTexts_of_memberTexts ms hms]
    rfl

end

end Ty

end NativeTypes
