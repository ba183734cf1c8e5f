import NativeTypes.Proofs.Json.Values
import NativeTypes.Proofs.Wire.Slots
import NativeTypes.Wire.Read

/-! # Types in a text

The outermost node of a type is read field by field, and its tag is decoded as soon as it is met. In
the end this says the same as to read the whole value first and to decode it then
(`tyReader_run_eq_ok_iff`), except that the tag of the outermost node has to be a text
(`TagIsText`). -/

namespace NativeTypes.Wire

open Json (Mismatch Reader Follows)

/-! ### The tag of the outermost node -/

theorem tagReader_run_eq_ok_iff {d : Nat} {s r : List Char} {t : Tag} :
    tagReader.run s = .ok (t, r) ↔
      ∃ x, (Reader.value d).run s = .ok (.string x, r) ∧ Tag.ofName x = .ok t := by
  simp only [tagReader]
  constructor
  · intro h
    split at h
    · cases h
    · rename_i x u hu
      split at h
      · rename_i ht
        cases h
        exact ⟨x, Json.string_run_eq_ok_iff.1 hu, ht⟩
      · cases h
  · rintro ⟨x, hx, ht⟩
    simp only [Json.string_run_eq_ok_iff.2 hx, ht]

/-- The tag of a text. -/
def tagOfText? : Json → Option Tag
  | .string x => (Tag.ofName x).toOption
  | _ => none

theorem tagOfText?_eq_some_iff {j : Json} {t : Tag} :
    tagOfText? j = some t ↔ ∃ x, j = .string x ∧ Tag.ofName x = .ok t := by
  cases j with
  | string x => cases h : Tag.ofName x <;> simp [tagOfText?, h, Except.toOption]
  | _ => simp [tagOfText?]

/-- What a field adds to what was gathered of a node. -/
def nodeStep (g : Gathered) (p : String × Json) : Option Gathered :=
  if p.1 = tagKey then
    if g.tag.isSome then none
    else (tagOfText? p.2).map fun t => { g with tag := some t }
  else some { g with fields := p :: g.fields }

theorem follows_nodeField (d : Nat) : Follows (Reader.value d) (nodeField d) nodeStep where
  run_iff {g g' k s r} := by
    by_cases hk : k = tagKey
    · subst hk
      cases hg : g.tag with
      | some t => simp [nodeField, nodeStep, hg]
      | none =>
        have hf : nodeField d g tagKey = .ok (tagReader.map fun t => { g with tag := some t }) := by
          simp [nodeField, hg]
        have hs : ∀ j, nodeStep g (tagKey, j) =
            (tagOfText? j).map fun t => { g with tag := some t } := by
          simp [nodeStep, hg]
        constructor
        · rintro ⟨reader, hr, h⟩
          rw [hf] at hr
          cases hr
          obtain ⟨t, ht, rfl⟩ := Json.map_run_eq_ok_iff.1 h
          obtain ⟨x, hx, ho⟩ := tagReader_run_eq_ok_iff.1 ht
          refine ⟨.string x, hx, ?_⟩
          rw [hs, tagOfText?_eq_some_iff.2 ⟨x, rfl, ho⟩]
          rfl
        · rintro ⟨j, hj, h⟩
          rw [hs] at h
          obtain ⟨t, ht, rfl⟩ := Option.map_eq_some_iff.1 h
          obtain ⟨x, rfl, ho⟩ := tagOfText?_eq_some_iff.1 ht
          exact ⟨_, hf, Json.map_run_eq_ok_iff.2
            ⟨t, tagReader_run_eq_ok_iff.2 ⟨x, hj, ho⟩, rfl⟩⟩
    · simp only [nodeField, nodeStep, hk, if_false, Except.ok.injEq, exists_eq_left',
        Option.some.injEq]
      exact Json.map_run_eq_ok_iff

/-- The fields of a node besides its tag. -/
def withoutTag (fs : List (String × Json)) : List (String × Json) :=
  fs.filter (·.1 != tagKey)

/-- Once there is a tag, no other may follow. -/
theorem foldlM_nodeStep_of_tag {g g' : Gathered} {fs : List (String × Json)} {t : Tag}
    (hg : g.tag = some t) : fs.foldlM nodeStep g = some g' ↔
      LacksField fs tagKey ∧ g' = ⟨some t, (withoutTag fs).reverse ++ g.fields⟩ := by
  induction fs generalizing g with
  | nil =>
    obtain ⟨_, _⟩ := g
    subst hg
    simp [LacksField, withoutTag, eq_comm]
  | cons p fs ih =>
    obtain ⟨k, v⟩ := p
    rw [List.foldlM_cons]
    by_cases hk : k = tagKey
    · simp [nodeStep, hk, hg, LacksField]
    · have hs : nodeStep g (k, v) = some { g with fields := (k, v) :: g.fields } := by
        simp [nodeStep, hk]
      rw [hs]
      refine (ih (g := { g with fields := (k, v) :: g.fields }) hg).trans ?_
      simp [LacksField, withoutTag, hk]

/-- **What is gathered of a node**: its one tag, which is a text, and its other fields. -/
theorem foldlM_nodeStep {g g' : Gathered} {fs : List (String × Json)} {t : Tag}
    (hg : g.tag = none) : fs.foldlM nodeStep g = some g' ∧ g'.tag = some t ↔
      (∃ x, HasField fs tagKey (.string x) ∧ Tag.ofName x = .ok t) ∧
        g' = ⟨some t, (withoutTag fs).reverse ++ g.fields⟩ := by
  induction fs generalizing g with
  | nil =>
    simp only [List.foldlM_nil, HasField, List.filter_nil]
    constructor
    · rintro ⟨h, ht⟩
      cases h
      rw [hg] at ht
      cases ht
    · rintro ⟨⟨x, h, -⟩, -⟩
      cases h
  | cons p fs ih =>
    obtain ⟨k, v⟩ := p
    rw [List.foldlM_cons]
    by_cases hk : k = tagKey
    · subst hk
      have hs : nodeStep g (tagKey, v) =
          (tagOfText? v).map fun t => { g with tag := some t } := by
        simp [nodeStep, hg]
      rw [hs]
      simp only [hasField_cons_self]
      constructor
      · rintro ⟨h, ht⟩
        obtain ⟨g₁, hg₁, hfs⟩ := Option.bind_eq_some_iff.1 h
        obtain ⟨u, hu, rfl⟩ := Option.map_eq_some_iff.1 hg₁
        obtain ⟨x, rfl, hx⟩ := tagOfText?_eq_some_iff.1 hu
        obtain ⟨hl, rfl⟩ := (foldlM_nodeStep_of_tag rfl).1 hfs
        cases ht
        exact ⟨⟨x, ⟨rfl, hl⟩, hx⟩, by simp [withoutTag]⟩
      · rintro ⟨⟨x, ⟨rfl, hl⟩, hx⟩, rfl⟩
        refine ⟨?_, rfl⟩
        rw [tagOfText?_eq_some_iff.2 ⟨x, rfl, hx⟩]
        refine (foldlM_nodeStep_of_tag rfl).2 ⟨hl, ?_⟩
        simp [withoutTag]
    · have hs : nodeStep g (k, v) = some { g with fields := (k, v) :: g.fields } := by
        simp [nodeStep, hk]
      rw [hs]
      refine (ih (g := { g with fields := (k, v) :: g.fields }) hg).trans ?_
      simp [HasField, withoutTag, hk]

/-! ### Reading a type -/

theorem fieldStep_tagKey (tag : Tag) (s : Slots) (v : Json) :
    fieldStep tag s (tagKey, v) = .ok s := by
  have hk : tag.field? tagKey = none := by
    cases tag <;> decide
  rw [fieldStep, hk]

/-- A node is decoded from its fields besides its tag. -/
theorem decodeFields_withoutTag (tag : Tag) (s : Slots) (fs : List (String × Json)) :
    decodeFields tag s (withoutTag fs) = decodeFields tag s fs := by
  rw [decodeFields_eq_foldlM, decodeFields_eq_foldlM, withoutTag, List.foldlM_filter]
  congr 1
  funext s ⟨k, v⟩
  by_cases hk : k = tagKey
  · subst hk
    simp only [bne_self_eq_false, fieldStep_tagKey]
    rfl
  · simp [hk]

/-- The tag of the outermost node, if there is one, is a text. -/
def TagIsText (j : Json) : Prop :=
  ∀ fs, j = .object fs → ∃ x, HasField fs tagKey (.string x)

/-- A draft is read from a bare name, or from an object whose tag is a text. -/
theorem draft_eq_ok_iff {d : Nat} {s r : List Char} {dr : Draft} :
    draft d s = .ok (dr, r) ↔
      (∃ x, (Reader.value d).run s = .ok (.string x, r) ∧ dr = .named x) ∨
      ∃ fs x tag, (Reader.value d).run s = .ok (.object fs, r) ∧
        HasField fs tagKey (.string x) ∧ Tag.ofName x = .ok tag ∧ draftOf tag fs = .ok dr := by
  simp only [Json.value_run_eq_string_iff, Json.value_run_eq_object_iff]
  rw [draft]
  constructor
  · intro h
    split at h
    · rename_i t ht
      split at h
      · cases h
      · rename_i cs u hu
        cases h
        exact .inl ⟨_, ⟨t, cs, ht, hu, rfl⟩, rfl⟩
    · rename_i t ht
      split at h
      · cases h
      · rename_i e
        obtain ⟨g, hg, hd⟩ := Json.objectRest_eq_ok_iff.1 h
        obtain ⟨fs, hfs, hst⟩ := (follows_nodeField e).fields_eq_ok_iff.1 hg
        cases hgt : g.tag with
        | none => simp [Gathered.finish, hgt] at hd
        | some tag =>
          obtain ⟨⟨x, hx, ho⟩, rfl⟩ := (foldlM_nodeStep rfl).1 ⟨hst, hgt⟩
          refine .inr ⟨fs, x, tag, ⟨t, e, ht, rfl, hfs⟩, hx, ho, ?_⟩
          simpa [Gathered.finish, draftOf, decodeFields_withoutTag] using hd
    · split at h <;> cases h
    · cases h
  · rintro (⟨x, ⟨t, cs, ht, hu, rfl⟩, rfl⟩ | ⟨fs, x, tag, ⟨t, e, ht, rfl, hfs⟩, hx, ho, hd⟩)
    · simp only [ht, hu]
    · simp only [ht]
      refine Json.objectRest_eq_ok_iff.2 ⟨⟨some tag, (withoutTag fs).reverse⟩,
        (follows_nodeField e).fields_eq_ok_iff.2 ⟨fs, hfs, ?_⟩, ?_⟩
      · exact ((foldlM_nodeStep rfl).2 ⟨⟨x, hx, ho⟩, by simp⟩).1
      · simpa [Gathered.finish, draftOf, decodeFields_withoutTag] using hd

/-- **A type is read exactly where a value is read that is decoded to the type**, and whose tag is
a text. -/
theorem tyReader_run_eq_ok_iff {d : Nat} {s r : List Char} {t : Ty} :
    (tyReader d).run s = .ok (t, r) ↔
      ∃ j, (Reader.value d).run s = .ok (j, r) ∧ TagIsText j ∧ decodeTy j = .ok t := by
  have hobj : ∀ {fs x tag}, HasField fs tagKey (.string x) → Tag.ofName x = .ok tag →
      decodeTy (.object fs) = (draftOf tag fs).bind Draft.resolve := by
    intro fs x tag hx ho
    rw [decodeTy, tagOf_of_text hx, ho, draftOf]
    show (decodeFields tag {} fs).bind _ = Except.bind ((decodeFields tag {} fs).bind _) _
    cases decodeFields tag {} fs <;> rfl
  rw [tyReader, Json.resolve_run_eq_ok_iff]
  constructor
  · rintro ⟨dr, h, hd⟩
    rcases draft_eq_ok_iff.1 h with ⟨x, hx, rfl⟩ | ⟨fs, x, tag, hj, hx, ho, hdr⟩
    · refine ⟨_, hx, ?_, ?_⟩
      · rintro fs ⟨⟩
      · rwa [decodeTy]
    · refine ⟨_, hj, ?_, ?_⟩
      · rintro gs ⟨⟩
        exact ⟨x, hx⟩
      · rw [hobj hx ho, hdr]
        exact hd
  · rintro ⟨j, hj, ht, h⟩
    cases j with
    | string x =>
      rw [decodeTy] at h
      exact ⟨_, draft_eq_ok_iff.2 (.inl ⟨x, hj, rfl⟩), h⟩
    | object fs =>
      obtain ⟨x, hx⟩ := ht fs rfl
      cases ho : Tag.ofName x with
      | error m =>
        rw [decodeTy, tagOf_of_text hx, ho] at h
        cases h
      | ok tag =>
        rw [hobj hx ho] at h
        cases hd : draftOf tag fs with
        | error m =>
          rw [hd] at h
          cases h
        | ok dr =>
          rw [hd] at h
          exact ⟨dr, draft_eq_ok_iff.2 (.inr ⟨fs, x, tag, hj, hx, ho, hd⟩), h⟩
    | _ =>
      rw [decodeTy] at h
      · cases h
      all_goals simp

end NativeTypes.Wire
