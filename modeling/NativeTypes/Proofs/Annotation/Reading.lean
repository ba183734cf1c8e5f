import Mathlib.Logic.Function.Iterate
import NativeTypes.Proofs.Annotation.Denotation

/-! # The type of a phrase

`Annotation.Phrase.ty?` finds a type whose phrase is given, if there is one. Where several types
have one phrase it decides: a name is that of a primitive, a predefined type or an enumeration
before it is a reference, two alternatives with `undefined` at the end are an optional type, and
words `readonly` belong to the outermost lists. -/

namespace NativeTypes.Annotation

/-- The types that are written as a name of their own, with the name. -/
def namedTypes : List (String × Ty) :=
  Primitive.all.map (fun p => (p.annotationText, .primitive p)) ++
    Predefined.all.map (fun p => (p.name, .predefined p)) ++
    [("\"enum of string\"", .enumeration .string), ("\"enum of Int32\"", .enumeration .int32)]

/-- The type of a name. -/
def named (s : String) : Ty :=
  (namedTypes.lookup s).getD (.reference s)

/-- Lists of lists, of which the outer ones may not change. -/
def lists (front back : Nat) (t : Ty) : Ty :=
  (Ty.array true)^[front] ((Ty.array false)^[back - front] t)

/-- The type that a name makes of its argument. -/
def applied? (t : Ty) : Option String → String → Option Ty
  | some v, "WithDefault" => some (.withDefault t v)
  | none, "Promise" => some (.operator .promise t)
  | none, "Readonly" => some (.operator .readonly t)
  | none, "BubblingEventHandler" => some (.event .bubbling t)
  | none, "DirectEventHandler" => some (.event .direct t)
  | _, _ => none

/-- The type of alternatives. -/
def alternatives : List Ty → Ty
  | [t, .primitive .undefined] => .operator .optional t
  | ts => .union ts

/-- The type of the parts of an object literal with mixins. -/
def intersection? (ts : List Ty) : Option Ty :=
  match ts.getLast? with
  | some (.objectLiteral [] ms f) => some (.objectLiteral ts.dropLast ms f)
  | _ => none

mutual

/-- **The type of a phrase**, if it has one. -/
def Phrase.ty? : Phrase → Option Ty
  | .mk k c n => c.ty?.map (lists k n)

/-- The type of a core. -/
def Core.ty? : Core → Option Ty
  | .name s => some (named s)
  | .applied h f v => f.ty?.bind fun t => applied? t v h
  | .group .bar fs => (tys? fs).map alternatives
  | .group _ fs => (tys? fs).bind intersection?
  | .arrow fs f => (tys? fs).bind fun ts => f.ty?.map fun t => .function t ts
  | .braces ms => (members? ms).map (Ty.objectOf [])

/-- The types of phrases. -/
def tys? : List Phrase → Option (List Ty)
  | [] => some []
  | f :: fs => f.ty?.bind fun t => (tys? fs).map (t :: ·)

/-- The members with their types. -/
def members? : List (Member Phrase) → Option (List (Member Ty))
  | [] => some []
  | ⟨n, f, o, r⟩ :: ms => f.ty?.bind fun t => (members? ms).map (⟨n, t, o, r⟩ :: ·)

end

/-! ### Names -/

theorem named_annotationText (p : Primitive) : named p.annotationText = .primitive p := by
  cases p <;> decide

theorem named_name (p : Predefined) : named p.name = .predefined p := by
  cases p <;> decide

theorem named_of_not_mem {n : String} (h : n ∉ namedTypes.map (·.1)) : named n = .reference n := by
  have hl : namedTypes.lookup n = none := by
    rw [List.lookup_eq_none_iff]
    rintro ⟨m, t⟩ he
    exact bne_iff_ne.2 fun hn => h (List.mem_map.2 ⟨(m, t), he, hn.symm⟩)
  rw [named, hl, Option.getD_none]

/-! ### Parts that are found again -/

@[simp]
theorem ty?_alone (c : Core) : c.alone.ty? = c.ty? := by
  have h : lists 0 0 = id := rfl
  rw [Core.alone, Phrase.ty?, h, Option.map_id, id]

theorem tys?_phrases {ts : List Ty} (h : ∀ t ∈ ts, t.phrase.ty? = some t) :
    tys? (Ty.phrases ts) = some ts := by
  induction ts with
  | nil => rfl
  | cons t ts ih =>
    rw [List.forall_mem_cons] at h
    rw [Ty.phrases, tys?, h.1, Option.bind_some, ih h.2, Option.map_some]

theorem members?_memberPhrases {ms : List (Member Ty)}
    (h : ∀ m ∈ ms, m.type.phrase.ty? = some m.type) :
    members? (Ty.memberPhrases ms) = some ms := by
  induction ms with
  | nil => rfl
  | cons m ms ih =>
    rw [List.forall_mem_cons] at h
    rw [Ty.memberPhrases, members?, h.1, Option.bind_some, ih h.2, Option.map_some]

theorem tys?_append {fs gs : List Phrase} {ts us : List Ty} (hf : tys? fs = some ts)
    (hg : tys? gs = some us) : tys? (fs ++ gs) = some (ts ++ us) := by
  induction fs generalizing ts with
  | nil =>
    cases hf
    exact hg
  | cons f fs ih =>
    rw [tys?, Option.bind_eq_some_iff] at hf
    obtain ⟨t, ht, hf⟩ := hf
    obtain ⟨ts, hts, rfl⟩ := Option.map_eq_some_iff.1 hf
    rw [List.cons_append, tys?, ht, Option.bind_some, ih hts, Option.map_some, List.cons_append]

theorem alternatives_eq_union {ts : List Ty} (h : ∀ t, ts ≠ [t, .primitive .undefined]) :
    alternatives ts = .union ts := by
  unfold alternatives
  split
  · exact absurd rfl (h _)
  · rfl

theorem intersection?_append (ts : List Ty) (ms : List (Member Ty)) (f : Bool) :
    intersection? (ts ++ [.objectLiteral [] ms f]) = some (.objectLiteral ts ms f) := by
  rw [intersection?, List.getLast?_concat, List.dropLast_concat]

/-- The parts of an object literal are those of its mixins and its members. -/
theorem ty?_objectCore {fs : List Phrase} {ps : List (Member Phrase)} {ts : List Ty}
    {ms : List (Member Ty)} (hf : tys? fs = some ts) (hp : members? ps = some ms) :
    (objectCore fs ps).ty? = some (Ty.objectOf ts ms) := by
  have hbody : (Core.braces ps).ty? = some (Ty.objectOf [] ms) := by
    rw [Core.ty?, hp, Option.map_some]
  cases fs with
  | nil =>
    cases hf
    exact hbody
  | cons f fs =>
    have hparts : tys? (f :: fs ++ [(Core.braces ps).alone]) = some (ts ++ [Ty.objectOf [] ms]) :=
      tys?_append hf (by rw [tys?, ty?_alone, hbody, Option.bind_some]; rfl)
    rw [objectCore, Core.ty?, hparts, Option.bind_some]
    · exact intersection?_append ts ms _
    · intro h
      cases h

/-- The phrase of a list that may not change, around a type that was found again. -/
theorem ty?_listed_true {f : Phrase} {t : Ty} (h : f.ty? = some t) :
    (f.listed true).ty? = some (.array true t) := by
  obtain ⟨k, c, n⟩ := f
  rw [Phrase.ty?, Option.map_eq_some_iff] at h
  obtain ⟨u, hu, rfl⟩ := h
  rw [Phrase.listed, Phrase.ty?, hu, Option.map_some, lists, lists, Function.iterate_succ_apply',
    Nat.succ_sub_succ]

/-- One pair of brackets more behind a phrase that is no arrow and starts with no `readonly`. -/
theorem ty?_bracketed {f : Phrase} {t : Ty} (h : f.ty? = some t) (hk : f.front = 0)
    (hc : f.core.isArrow = false) : f.bracketed.ty? = some (.array false t) := by
  obtain ⟨k, c, n⟩ := f
  obtain rfl : k = 0 := hk
  rw [Phrase.ty?, Option.map_eq_some_iff] at h
  obtain ⟨u, hu, rfl⟩ := h
  have hb : (Phrase.mk 0 c n).bracketed = .mk 0 c (n + 1) := bracketed_of_not_isArrow hc
  rw [hb, Phrase.ty?, hu, Option.map_some, lists, lists, Nat.sub_zero, Nat.sub_zero,
    Function.iterate_succ_apply']
  rfl

end NativeTypes.Annotation
