import NativeTypes.Proofs.Json.Raw.Skipping
import NativeTypes.Proofs.Json.Raw.Spelled
import NativeTypes.Proofs.Json.Raw.Values
import NativeTypes.Proofs.Wire.LooseForm
import NativeTypes.Proofs.Wire.Nodes

/-! # The texts that are decoded

Which texts are decoded, and to what, is said of the text as it has been taken apart (`Json.Raw`),
since fields that nobody asks for need not have a value.

* `SpellsType d x t`: a type is spelled by a text that has a value, which is a loose form of the
  type and whose own tag is a text.
* `SpellsContainer d x c`: a container is spelled by an object with one field `types`, besides any
  fields of other names, or by a list of one item. The definitions are an object; each of its fields
  spells a type, also where a later one redefines it.
* `decode_eq_ok_iff_spells`: **exactly these texts are decoded.**
* `spellsContainer_of_value?`: where all of a text has a value, the value says whether it is one of
  them. -/

namespace NativeTypes

namespace Wire

open Json (Mismatch Reader Raw Takes TakesField Spelled SpelledFields Blanks EndsValue unquote?
  foldFields blank)

/-! ### Types -/

/-- A text of a type in which lists and objects nest at most `d` deep. -/
def SpellsType (d : Nat) (x : Raw) (t : Ty) : Prop :=
  ∃ j, x.value? = some j ∧ j.depth ≤ d ∧ TagIsText j ∧ LooseForm t j

/-- An object has one tag, which is a text. -/
def hasTextTag (fs : List (String × Json)) : Bool :=
  match fs.filter (·.1 == tagKey) with
  | [(_, .string _)] => true
  | _ => false

theorem hasTextTag_iff {fs : List (String × Json)} :
    hasTextTag fs = true ↔ ∃ x, HasField fs tagKey (.string x) := by
  unfold hasTextTag HasField
  split
  · rename_i k x hfs
    have hk : k = tagKey := by
      have hm : (k, Json.string x) ∈ fs.filter (·.1 == tagKey) := hfs ▸ List.mem_cons_self
      simpa using (List.mem_filter.1 hm).2
    simp [hfs, hk]
  · rename_i hfs
    constructor
    · intro h
      cases h
    · rintro ⟨x, hx⟩
      exact absurd hx (hfs _ _)

instance : DecidablePred TagIsText
  | .object fs => decidable_of_iff (hasTextTag fs = true) <| by
    simp [TagIsText, hasTextTag_iff]
  | .null | .boolean _ | .number _ | .string _ | .array _ => isTrue <| by
    rintro fs ⟨⟩

/-- The type that a text is read as. -/
def typeOf? (d : Nat) (x : Raw) : Option Ty :=
  (x.valueWithin? d).bind fun j => if TagIsText j then (decodeTy j).toOption else none

theorem toOption_eq_some_iff {ε α : Type} {x : Except ε α} {a : α} :
    x.toOption = some a ↔ x = .ok a := by
  cases x <;> simp [Except.toOption]

theorem typeOf?_eq_some_iff {d : Nat} {x : Raw} {t : Ty} :
    typeOf? d x = some t ↔ SpellsType d x t := by
  rw [typeOf?, SpellsType, Option.bind_eq_some_iff]
  constructor
  · rintro ⟨j, hj, h⟩
    obtain ⟨hd, hj⟩ := Raw.valueWithin?_eq_some_iff.1 hj
    split at h
    · rename_i ht
      rw [toOption_eq_some_iff, decodeTy_eq_ok_iff] at h
      exact ⟨j, hj, Raw.depth_of_value? hj ▸ hd, ht, h⟩
    · cases h
  · rintro ⟨j, hj, hd, ht, h⟩
    refine ⟨j, Raw.valueWithin?_eq_some_iff.2 ⟨Raw.depth_of_value? hj ▸ hd, hj⟩, ?_⟩
    rw [if_pos ht, (decodeTy_eq_ok_iff t).2 h]
    rfl

theorem takes_tyReader (d : Nat) (x : Raw) : Takes (tyReader d) x (typeOf? d x) := by
  intro s a r u t hs ha hr
  rw [tyReader_run_eq_ok_iff, typeOf?, Option.bind_eq_some_iff]
  constructor
  · rintro ⟨j, hj, ht, h⟩
    obtain ⟨hj, rfl⟩ := (Json.takes_value x d hs ha hr).1 hj
    exact ⟨⟨j, hj, by rw [if_pos ht, h]; rfl⟩, rfl⟩
  · rintro ⟨⟨j, hj, h⟩, rfl⟩
    split at h
    · rename_i ht
      exact ⟨j, (Json.takes_value x d hs ha hr).2 ⟨hj, rfl⟩, ht, toOption_eq_some_iff.1 h⟩
    · cases h

theorem spelled_tyReader (d : Nat) : Spelled (tyReader d) := by
  intro s r t h
  obtain ⟨j, hj, -⟩ := tyReader_run_eq_ok_iff.1 h
  exact Json.spelled_value d hj

/-! ### Definitions -/

/-- Reads one more definition. -/
def definitionStep (d : Nat) (c : Container) (n : String) (x : Raw) : Option Container :=
  (typeOf? d x).map (c.insert n)

/-- The definitions that a text is read as. -/
def definitionsOf? (d : Nat) : Raw → Option Container
  | .object fs => foldFields (definitionStep d) .empty fs
  | _ => none

theorem takesField_definition (d : Nat) (x : Raw) :
    TakesField (fun (c : Container) n => .ok ((tyReader d).map fun t => c.insert n t))
      (definitionStep d) x := by
  intro c n
  exact Takes.map (takes_tyReader d x) _

theorem definitionsReader_run {d : Nat} {s r : List Char} {c : Container} :
    (definitionsReader d).run s = .ok (c, r) ↔ ∃ t, blank s = '{' :: t ∧
      Json.fields (fun (c : Container) n => .ok ((tyReader d).map fun t => c.insert n t)) .empty t =
        .ok (c, r) := by
  simp only [definitionsReader]
  constructor
  · intro h
    split at h
    · rename_i t ht
      obtain ⟨c, hc, he⟩ := Json.objectRest_eq_ok_iff.1 h
      cases he
      exact ⟨t, ht, hc⟩
    · cases h
  · rintro ⟨t, ht, h⟩
    simp only [ht]
    exact Json.objectRest_eq_ok_iff.2 ⟨c, h, rfl⟩

theorem takes_definitionsReader (d : Nat) (x : Raw) :
    Takes (definitionsReader d) x (definitionsOf? d x) := by
  intro s a r u c hs ha hr
  rw [definitionsReader_run, ha.blank_eq hs]
  cases x with
  | object fs =>
    obtain ⟨t, rfl⟩ := ha.exists_brace
    rw [definitionsOf?, ← Json.fields_run_iff (fun f _ => takesField_definition d f.2) ha]
    simp
  | _ =>
    constructor
    · rintro ⟨t, rfl, -⟩
      obtain ⟨fs, h⟩ := ha.of_head.2 rfl
      cases h
    · rintro ⟨h, -⟩
      cases h

theorem spelled_definitionsReader (d : Nat) : Spelled (definitionsReader d) := by
  intro s r c h
  obtain ⟨t, ht, h⟩ := definitionsReader_run.1 h
  refine ht ▸ Json.spells_of_fields ?_ h
  intro c n reader hr
  cases hr
  exact Spelled.map (spelled_tyReader d) _

/-! ### Containers -/

/-- Reads one more field of a container. -/
def containerStep (d : Nat) (c : Option Container) (n : String) (x : Raw) :
    Option (Option Container) :=
  if n = definitionsKey then if c.isSome then none else (definitionsOf? d x).map some
  else some c

/-- The container that a text is read as. -/
def containerOf? (d : Nat) : Raw → Option Container
  | .object fs => (foldFields (containerStep d) none fs).bind id
  | .array [x] => definitionsOf? d x
  | _ => none

theorem takesField_container (d : Nat) (x : Raw) :
    TakesField (containerField d) (containerStep d) x := by
  intro c n
  by_cases hn : n = definitionsKey
  · cases c with
    | none =>
      simp only [containerField, containerStep, hn, if_true]
      exact Takes.map (takes_definitionsReader d x) some
    | some c => simp [containerField, containerStep, hn]
  · simp only [containerField, containerStep, hn, if_false]
    exact Takes.map (Json.takes_skip x) fun _ => c

theorem finishContainer_eq_ok_iff {m : Mismatch} {o : Option Container} {c : Container} :
    finishContainer m o = .ok c ↔ o = some c := by
  cases o <;> simp [finishContainer]

theorem endList_eq_ok_iff {s r : List Char} : Json.endList s = .ok r ↔ blank s = ']' :: r := by
  unfold Json.endList
  split
  · rename_i hs
    simp [hs, Json.failAhead]
  · rename_i hs
    simp [hs]
  · rename_i hs
    split <;> simp [hs, Json.failAhead]
  · rename_i hne _
    constructor
    · intro h
      cases h
    · intro h
      exact absurd h (hne r)

/-- A container that is read from a list. -/
theorem listRest_run {d : Nat} {s r : List Char} {c : Container} :
    Json.listRest [fun _ => (definitionsReader d).map some] none
        (finishContainer (.wrongLength 0 "struct File with 1 element")) s = .ok (c, r) ↔
      ∃ t u, Json.firstItem s = .ok (.more t) ∧ (definitionsReader d).run t = .ok (c, u) ∧
        blank u = ']' :: r := by
  simp only [Json.listRest, Json.positional]
  constructor
  · intro h
    split at h
    · cases h
    · rename_i o u hp
      split at hp
      · cases hp
      · cases hp
        cases h
      · rename_i t ht
        split at hp
        · cases hp
        · rename_i hv
          cases hp
          obtain ⟨c', hc, rfl⟩ := Json.map_run_eq_ok_iff.1 hv
          obtain ⟨v, hv, he⟩ := Json.map_eq_ok h
          cases he
          exact ⟨t, u, ht, hc, endList_eq_ok_iff.1 hv⟩
  · rintro ⟨t, u, ht, hc, hu⟩
    have hv : ((definitionsReader d).map some).run t = .ok (some c, u) :=
      Json.map_run_eq_ok_iff.2 ⟨c, hc, rfl⟩
    simp only [ht, hv, finishContainer, endList_eq_ok_iff.2 hu]
    rfl

theorem containerReader_run {d : Nat} {s r : List Char} {c : Container} :
    (containerReader d).run s = .ok (c, r) ↔
      (∃ t, blank s = '{' :: t ∧ Json.fields (containerField d) none t = .ok (some c, r)) ∨
      ∃ t u v, blank s = '[' :: t ∧ Json.firstItem t = .ok (.more u) ∧
        (definitionsReader d).run u = .ok (c, v) ∧ blank v = ']' :: r := by
  simp only [containerReader, structReader]
  constructor
  · intro h
    split at h
    · rename_i t ht
      obtain ⟨o, ho, hc⟩ := Json.objectRest_eq_ok_iff.1 h
      rw [finishContainer_eq_ok_iff] at hc
      exact .inl ⟨t, ht, hc ▸ ho⟩
    · rename_i t ht
      obtain ⟨u, v, h⟩ := listRest_run.1 h
      exact .inr ⟨t, u, v, ht, h⟩
    · cases h
  · rintro (⟨t, ht, h⟩ | ⟨t, u, v, ht, h⟩)
    · simp only [ht]
      exact Json.objectRest_eq_ok_iff.2 ⟨some c, h, rfl⟩
    · simp only [ht]
      exact listRest_run.2 ⟨u, v, h⟩

/-- A list ends after an item if no more items follow. -/
theorem blank_of_moreItems {xs : List Raw} {s r u : List Char} (h : Raw.SpellsMoreItems xs s r) :
    blank s = ']' :: u ↔ xs = [] ∧ u = r := by
  cases xs with
  | nil =>
    have hb : blank s = ']' :: r := Blanks.blank_eq_cons h rfl
    simp [hb, eq_comm]
  | cons x xs =>
    obtain ⟨t, a, b, ht, -⟩ := h
    have hb : blank s = ',' :: t := ht.blank_eq_cons rfl
    simp [hb]

theorem takes_containerReader (d : Nat) (x : Raw) :
    Takes (containerReader d) x (containerOf? d x) := by
  intro s a r u c hs ha hr
  rw [containerReader_run, ha.blank_eq hs]
  cases x with
  | object fs =>
    obtain ⟨t, rfl⟩ := ha.exists_brace
    have hread : ∀ {o}, Json.fields (containerField d) none t = .ok (o, u) ↔
        foldFields (containerStep d) none fs = some o ∧ u = r :=
      Json.fields_run_iff (fun f _ => takesField_container d f.2) ha
    have hjoin : ∀ o : Option (Option Container), o.bind id = some c ↔ o = some (some c) := by
      rintro (_ | o) <;> simp
    rw [containerOf?, hjoin, ← hread]
    simp
  | array xs =>
    cases xs with
    | nil =>
      obtain ⟨t, rfl, ht⟩ := ha
      simp [containerOf?, Json.firstItem_close ht]
    | cons x xs =>
      obtain ⟨t, b, e, rfl, htb, hx, hxs⟩ := ha
      have hn : Json.firstItem t = .ok (.more b) := hx.firstItem htb
      have hread : ∀ {c' v}, (definitionsReader d).run b = .ok (c', v) ↔
          definitionsOf? d x = some c' ∧ v = e :=
        takes_definitionsReader d x (Json.blanks_refl b) hx hxs.endsValue
      have hend := blank_of_moreItems hxs (u := u)
      cases xs <;> simp [containerOf?, hn, hread, hend]
  | _ =>
    constructor
    · rintro (⟨t, rfl, -⟩ | ⟨t, _, _, rfl, -⟩)
      · obtain ⟨fs, h⟩ := ha.of_head.2 rfl
        cases h
      · obtain ⟨xs, h⟩ := ha.of_head.1 rfl
        cases h
    · rintro ⟨h, -⟩
      cases h

theorem spelled_containerReader (d : Nat) : Spelled (containerReader d) := by
  intro s r c h
  rcases containerReader_run.1 h with ⟨t, ht, h⟩ | ⟨t, u, v, ht, hu, h, hv⟩
  · refine ht ▸ Json.spells_of_fields ?_ h
    intro c n reader hr
    by_cases hn : n = definitionsKey
    · simp only [containerField, hn, if_true] at hr
      split at hr
      · cases hr
      · cases hr
        exact Spelled.map (spelled_definitionsReader d) _
    · simp only [containerField, hn, if_false] at hr
      cases hr
      exact Spelled.map Json.spelled_skip _
  · obtain ⟨x, hx⟩ := spelled_definitionsReader d h
    rcases Json.blank_of_firstItem hu with ⟨_, he, -⟩ | he <;> cases he
    rw [Json.blank_blank] at hx
    exact ⟨.array [x], ht ▸ ⟨t, _, v, rfl, Json.blanks_blank t, hx, Json.blanks_of_blank_eq hv⟩⟩

/-! ### What is decoded -/

/-- A field that defines a name as a type. -/
def SpellsDefinition (d : Nat) (f : List Char × Raw) (e : String × Ty) : Prop :=
  unquote? f.1 = some e.1 ∧ SpellsType d f.2 e.2

/-- A text of definitions, in order, with types in which lists and objects nest at most `d` deep. -/
def SpellsDefinitions (d : Nat) (x : Raw) (es : List (String × Ty)) : Prop :=
  ∃ fs, x = .object fs ∧ List.Forall₂ (SpellsDefinition d) fs es

/-- A text of a container: an object with one field `types`, or a list of one item. -/
def SpellsContainer (d : Nat) (x : Raw) (c : Container) : Prop :=
  ∃ y es, SpellsDefinitions d y es ∧ c = Container.ofList es ∧
    (x = .array [y] ∨ ∃ fs k, x = .object fs ∧ (∀ f ∈ fs, (unquote? f.1).isSome = true) ∧
      fs.filter (fun f => unquote? f.1 == some "types") = [(k, y)])

theorem exists_of_mem_left {α β : Type} {R : α → β → Prop} {as : List α} {bs : List β}
    (h : List.Forall₂ R as bs) {a : α} (ha : a ∈ as) : ∃ b ∈ bs, R a b := by
  induction h with
  | nil => cases ha
  | cons hab _ ih =>
    rcases List.mem_cons.1 ha with rfl | ha
    · exact ⟨_, List.mem_cons_self, hab⟩
    · obtain ⟨b, hb, h⟩ := ih ha
      exact ⟨b, List.mem_cons_of_mem _ hb, h⟩

theorem foldFields_definitionStep {d : Nat} {fs : List (List Char × Raw)} {b c : Container} :
    foldFields (definitionStep d) b fs = some c ↔
      ∃ es, List.Forall₂ (SpellsDefinition d) fs es ∧
        c = es.foldl (fun c e => c.insert e.1 e.2) b := by
  induction fs generalizing b with
  | nil => simp [foldFields, eq_comm]
  | cons f fs ih =>
    rw [foldFields, List.foldlM_cons]
    constructor
    · intro h
      obtain ⟨b', hb, h⟩ := Option.bind_eq_some_iff.1 h
      obtain ⟨n, hn, hb⟩ := Option.bind_eq_some_iff.1 hb
      obtain ⟨t, ht, rfl⟩ := Option.map_eq_some_iff.1 hb
      obtain ⟨es, hes, rfl⟩ := ih.1 h
      exact ⟨(n, t) :: es, .cons ⟨hn, typeOf?_eq_some_iff.1 ht⟩ hes, rfl⟩
    · rintro ⟨es, hes, rfl⟩
      cases hes with
      | cons he hes =>
        rename_i e es
        have hb : definitionStep d b e.1 f.2 = some (b.insert e.1 e.2) := by
          rw [definitionStep, typeOf?_eq_some_iff.2 he.2]
          rfl
        exact Option.bind_eq_some_iff.2 ⟨_, by rw [he.1]; exact hb, ih.2 ⟨es, hes, rfl⟩⟩

theorem definitionsOf?_eq_some_iff {d : Nat} {x : Raw} {c : Container} :
    definitionsOf? d x = some c ↔ ∃ es, SpellsDefinitions d x es ∧ c = Container.ofList es := by
  constructor
  · intro h
    cases x with
    | object fs =>
      obtain ⟨es, hes, rfl⟩ := foldFields_definitionStep.1 h
      exact ⟨es, ⟨fs, rfl, hes⟩, rfl⟩
    | _ => cases h
  · rintro ⟨es, ⟨fs, rfl, hes⟩, rfl⟩
    exact foldFields_definitionStep.2 ⟨es, hes, rfl⟩

/-- One step over a field of a container. -/
theorem foldFields_containerStep_cons {d : Nat} {f : List Char × Raw} {fs : List (List Char × Raw)}
    {o o' : Option Container} : foldFields (containerStep d) o (f :: fs) = some o' ↔
      ∃ n m, unquote? f.1 = some n ∧ containerStep d o n f.2 = some m ∧
        foldFields (containerStep d) m fs = some o' := by
  rw [foldFields, List.foldlM_cons]
  constructor
  · intro h
    obtain ⟨m, hm, h⟩ := Option.bind_eq_some_iff.1 h
    obtain ⟨n, hn, hm⟩ := Option.bind_eq_some_iff.1 hm
    exact ⟨n, m, hn, hm, h⟩
  · rintro ⟨n, m, hn, hm, h⟩
    exact Option.bind_eq_some_iff.2 ⟨m, by rw [hn]; exact hm, h⟩

/-- The fields of a container after its definitions: none of them holds definitions again. -/
theorem foldFields_containerStep_some {d : Nat} {fs : List (List Char × Raw)} {b : Container}
    {o : Option Container} : foldFields (containerStep d) (some b) fs = some o ↔
      (∀ f ∈ fs, (unquote? f.1).isSome = true) ∧
        fs.filter (fun f => unquote? f.1 == some "types") = [] ∧ o = some b := by
  induction fs with
  | nil =>
    constructor
    · intro h
      cases h
      exact ⟨by simp, rfl, rfl⟩
    · rintro ⟨-, -, rfl⟩
      rfl
  | cons f fs ih =>
    rw [foldFields_containerStep_cons]
    cases hn : unquote? f.1 with
    | none => simp [hn]
    | some n =>
      by_cases ht : n = "types"
      · simp [containerStep, definitionsKey, hn, ht]
      · simp [containerStep, definitionsKey, hn, ht, ih]

/-- **The fields of a container**: one of them holds definitions. -/
theorem foldFields_containerStep {d : Nat} {fs : List (List Char × Raw)} {c : Container} :
    foldFields (containerStep d) none fs = some (some c) ↔
      (∀ f ∈ fs, (unquote? f.1).isSome = true) ∧ ∃ k y,
        fs.filter (fun f => unquote? f.1 == some "types") = [(k, y)] ∧
          definitionsOf? d y = some c := by
  induction fs with
  | nil => simp [foldFields]
  | cons f fs ih =>
    obtain ⟨k, x⟩ := f
    rw [foldFields_containerStep_cons]
    cases hn : unquote? k with
    | none => simp [hn]
    | some n =>
      by_cases ht : n = "types"
      · simpa [containerStep, definitionsKey, hn, ht, foldFields_containerStep_some] using
          and_rotate
      · simp [containerStep, definitionsKey, hn, ht, ih]

theorem containerOf?_eq_some_iff {d : Nat} {x : Raw} {c : Container} :
    containerOf? d x = some c ↔ SpellsContainer d x c := by
  constructor
  · intro h
    unfold containerOf? at h
    split at h
    · rename_i fs
      obtain ⟨o, ho, rfl⟩ := Option.bind_eq_some_iff.1 h
      obtain ⟨hn, k, y, hf, hy⟩ := foldFields_containerStep.1 ho
      obtain ⟨es, hes, rfl⟩ := definitionsOf?_eq_some_iff.1 hy
      exact ⟨y, es, hes, rfl, .inr ⟨fs, k, rfl, hn, hf⟩⟩
    · rename_i y
      obtain ⟨es, hes, rfl⟩ := definitionsOf?_eq_some_iff.1 h
      exact ⟨y, es, hes, rfl, .inl rfl⟩
    · cases h
  · rintro ⟨y, es, hes, rfl, rfl | ⟨fs, k, rfl, hn, hf⟩⟩
    · exact definitionsOf?_eq_some_iff.2 ⟨es, hes, rfl⟩
    · have hy := definitionsOf?_eq_some_iff.2 ⟨es, hes, rfl⟩
      exact Option.bind_eq_some_iff.2 ⟨_, foldFields_containerStep.2 ⟨hn, k, y, hf, hy⟩, rfl⟩

/-! ### Texts that have a value -/

/-- The fields of a text that has a value, one by one. -/
theorem fieldValues?_eq_some_iff {rs : List (List Char × Raw)} {fs : List (String × Json)} :
    Raw.fieldValues? rs = some fs ↔
      List.Forall₂ (fun r f => unquote? r.1 = some f.1 ∧ r.2.value? = some f.2) rs fs := by
  induction rs generalizing fs with
  | nil => simp [Raw.fieldValues?, eq_comm]
  | cons r rs ih =>
    obtain ⟨k, x⟩ := r
    rw [Raw.fieldValues?, List.forall₂_cons_left_iff]
    simp only [Option.bind_eq_some_iff, Option.map_eq_some_iff, ih, Prod.exists]
    constructor
    · rintro ⟨n, hn, j, hj, gs, hgs, rfl⟩
      exact ⟨n, j, gs, ⟨hn, hj⟩, hgs, rfl⟩
    · rintro ⟨n, j, gs, ⟨hn, hj⟩, hgs, rfl⟩
      exact ⟨n, hn, j, hj, gs, hgs, rfl⟩

theorem value?_eq_object_iff {x : Raw} {fs : List (String × Json)} :
    x.value? = some (.object fs) ↔ ∃ rs, x = .object rs ∧ Raw.fieldValues? rs = some fs := by
  cases x <;> simp [Raw.value?]

/-- A text of definitions that has a value: what holds of the values holds of the texts. -/
theorem exists_definitions_of_value? {R : Ty → Json → Prop} {y : Raw} {gs : List (String × Json)}
    {es : List (String × Ty)} (hy : y.value? = some (.object gs))
    (hg : List.Forall₂ (fun g e => g.1 = e.1 ∧ R e.2 g.2) gs es) :
    ∃ rs, y = .object rs ∧ List.Forall₂
      (fun r e => unquote? r.1 = some e.1 ∧ ∃ j, r.2.value? = some j ∧ R e.2 j) rs es := by
  obtain ⟨rs, rfl, hrs⟩ := value?_eq_object_iff.1 hy
  refine ⟨rs, rfl, ?_⟩
  rw [fieldValues?_eq_some_iff] at hrs
  clear hy
  induction hrs generalizing es with
  | nil =>
    cases hg
    exact .nil
  | cons hr _ ih =>
    cases hg with
    | cons hg hgs => exact .cons ⟨hg.1 ▸ hr.1, _, hr.2, hg.2⟩ (ih hgs)

/-- A text of an object that has a value: one field `types` of the value is one of the text. -/
theorem exists_types_of_value? {x : Raw} {fs : List (String × Json)} {v : Json}
    (hx : x.value? = some (.object fs)) (ht : HasField fs "types" v) :
    ∃ rs k y, x = .object rs ∧ (∀ r ∈ rs, (unquote? r.1).isSome = true) ∧
      rs.filter (fun r => unquote? r.1 == some "types") = [(k, y)] ∧ y.value? = some v := by
  obtain ⟨rs, rfl, hrs⟩ := value?_eq_object_iff.1 hx
  rw [fieldValues?_eq_some_iff] at hrs
  have hnames : ∀ r ∈ rs, (unquote? r.1).isSome = true := by
    intro r hr
    obtain ⟨f, -, hf⟩ := exists_of_mem_left hrs hr
    rw [hf.1]
    rfl
  have hfilter := List.rel_filter (p := fun r => unquote? r.1 == some "types")
    (q := fun f => f.1 == "types") (fun r f hf => by simp [hf.1]) hrs
  rw [ht] at hfilter
  obtain ⟨⟨k, y⟩, more, ⟨-, hy⟩, hmore, hrest⟩ := List.forall₂_cons_right_iff.1 hfilter
  cases hmore
  exact ⟨rs, k, y, rfl, hnames, hrest, hy⟩

/-- **A value of a container** with one field `types`. -/
theorem spellsContainer_of_value? {d : Nat} {x : Raw} {fs gs : List (String × Json)}
    {es : List (String × Ty)} (hx : x.value? = some (.object fs))
    (ht : HasField fs "types" (.object gs))
    (hg : List.Forall₂ (fun g e => g.1 = e.1 ∧ g.2.depth ≤ d ∧ TagIsText g.2 ∧ LooseForm e.2 g.2)
      gs es) : SpellsContainer d x (Container.ofList es) := by
  obtain ⟨rs, k, y, rfl, hnames, hrest, hy⟩ := exists_types_of_value? hx ht
  obtain ⟨ds, rfl, hds⟩ := exists_definitions_of_value?
    (R := fun t j => j.depth ≤ d ∧ TagIsText j ∧ LooseForm t j) hy hg
  exact ⟨_, es, ⟨ds, rfl, hds⟩, rfl, .inr ⟨rs, k, rfl, hnames, hrest⟩⟩

end Wire

/-- **What a text is decoded to** as a type. -/
theorem Ty.decode_eq_ok_iff {x : Json.Raw} {s : String} (hx : x.IsText s) {t : Ty} :
    Ty.decode s = .ok t ↔ Wire.SpellsType 127 x t := by
  rw [← Wire.typeOf?_eq_some_iff]
  exact Json.decode_eq_ok_iff_of_isText (Wire.takes_tyReader _ x) hx

/-- **What a text is decoded to** as a container. -/
theorem Container.decode_eq_ok_iff {x : Json.Raw} {s : String} (hx : x.IsText s) {c : Container} :
    Container.decode s = .ok c ↔ Wire.SpellsContainer 125 x c := by
  rw [← Wire.containerOf?_eq_some_iff]
  exact Json.decode_eq_ok_iff_of_isText (Wire.takes_containerReader _ x) hx

/-- **The texts that are decoded**, and what they are decoded to. -/
theorem decode_eq_ok_iff_spells :
    (∀ (s : String) (t : Ty), Ty.decode s = .ok t ↔
      ∃ x : Json.Raw, x.IsText s ∧ Wire.SpellsType 127 x t) ∧
    ∀ (s : String) (c : Container), Container.decode s = .ok c ↔
      ∃ x : Json.Raw, x.IsText s ∧ Wire.SpellsContainer 125 x c := by
  constructor
  · intro s t
    simp only [← Wire.typeOf?_eq_some_iff]
    exact Json.decode_eq_ok_iff_exists_raw (Wire.takes_tyReader _) (Wire.spelled_tyReader _)
  · intro s c
    simp only [← Wire.containerOf?_eq_some_iff]
    exact Json.decode_eq_ok_iff_exists_raw (Wire.takes_containerReader _)
      (Wire.spelled_containerReader _)

end NativeTypes
