import Mathlib.Data.List.Forall2
import NativeTypes.Proofs.Json.Raw.Spellings
import NativeTypes.Proofs.Json.Raw.Texts
import NativeTypes.Proofs.Json.Writing
import NativeTypes.Proofs.Wire.Containers

/-! # Values that are decoded and are no forms

A value is lax if, somewhere in it where a type is decoded, a tag is a number or a member is a list
(`Lax`). A loose form of a type is a form of it exactly if it is not lax (`form_iff`), and a
container that is decoded is documented exactly if it is not lax either (`formsContainer_iff`). So
what is decoded beyond the documented forms is known (`documented_iff_of_decode`). -/

namespace NativeTypes

namespace Wire

open Json (Raw unquote?)

/-! ### Lax values -/

mutual

/-- **A value in which a tag is a number or a member is a list**, where a type is decoded. -/
inductive Lax : Json → Prop
  | tag {fs : List (String × Json)} {n : Json.Number} (h : HasField fs "type" (.number n)) :
      Lax (.object fs)
  | field {fs : List (String × Json)} {tag : Tag} {f : Field} {v : Json}
      (ht : HasField fs "type" (.string tag.name)) (hf : f ∈ tag.fields)
      (hv : HasField fs f.key v) (h : LaxIn f v) : Lax (.object fs)

/-- The value of a field of a node in which this is so. -/
inductive LaxIn : Field → Json → Prop
  | type {f : Field} {v : Json} (hf : f = .element ∨ f = .returnType) (h : Lax v) : LaxIn f v
  | item {f : Field} {es : List Json} {e : Json}
      (hf : f = .argumentTypes ∨ f = .mixins ∨ f = .elements) (he : e ∈ es) (h : Lax e) :
      LaxIn f (.array es)
  | member {os : List Json} {i : Json} (hi : i ∈ os) (h : LaxMember i) : LaxIn .members (.array os)

/-- A member in which this is so. -/
inductive LaxMember : Json → Prop
  | list {js : List Json} : LaxMember (.array js)
  | type {gs : List (String × Json)} {e : Json} (he : HasField gs "type" e) (h : Lax e) :
      LaxMember (.object gs)

end

/-- Where the value of a field may be lax. -/
theorem laxIn_iff {f : Field} {v : Json} : LaxIn f v ↔
    match f with
    | .element | .returnType => Lax v
    | .argumentTypes | .mixins | .elements => ∃ es, v = .array es ∧ ∃ e ∈ es, Lax e
    | .members => ∃ os, v = .array os ∧ ∃ i ∈ os, LaxMember i
    | .name | .readonly | .backing | .defaultValue | .allMembersReadonly => False := by
  constructor
  · rintro (⟨rfl | rfl, h⟩ | ⟨rfl | rfl | rfl, he, h⟩ | ⟨hi, h⟩)
    · exact h
    · exact h
    · exact ⟨_, rfl, _, he, h⟩
    · exact ⟨_, rfl, _, he, h⟩
    · exact ⟨_, rfl, _, he, h⟩
    · exact ⟨_, rfl, _, hi, h⟩
  · intro h
    cases f with
    | element => exact .type (.inl rfl) h
    | returnType => exact .type (.inr rfl) h
    | argumentTypes | mixins | elements =>
      obtain ⟨es, rfl, e, he, h⟩ := h
      exact .item (by simp) he h
    | members =>
      obtain ⟨os, rfl, i, hi, h⟩ := h
      exact .member hi h
    | _ => exact h.elim

theorem laxMember_object_iff {gs : List (String × Json)} {e : Json} (he : HasField gs "type" e) :
    LaxMember (.object gs) ↔ Lax e := by
  constructor
  · rintro (_ | ⟨he', h⟩)
    cases he.symm.trans he'
    exact h
  · exact .type he

/-- A field has one value. -/
theorem HasField.forall_iff {fs : List (String × Json)} {k : String} {v : Json}
    (h : HasField fs k v) {P : Json → Prop} : (∀ w, HasField fs k w → P w) ↔ P v := by
  constructor
  · exact fun hP => hP v h
  · intro hv w hw
    cases hw.symm.trans h
    exact hv

/-- A loose node is not lax if its tag is a text and none of its fields is lax. -/
theorem isNode_and_iff (tag : Tag) (fs : List (String × Json)) (j : Json) :
    (IsNode tag.name fs j ∧ ∀ f ∈ tag.fields, ∀ v, HasField fs f.key v → ¬ LaxIn f v) ↔
      IsLooseNode tag fs j ∧ ¬ Lax j := by
  constructor
  · rintro ⟨⟨rfl, ht⟩, hs⟩
    refine ⟨⟨rfl, _, ht, .inl rfl⟩, ?_⟩
    rintro (h | ⟨ht', hf, hv, h⟩)
    · cases h.symm.trans ht
    · have he := ht'.symm.trans ht
      simp only [List.cons.injEq, Prod.mk.injEq, Json.string.injEq, true_and, and_true] at he
      cases Tag.name_injective he
      exact hs _ hf _ hv h
  · rintro ⟨⟨rfl, v, hv, rfl | ⟨i, rfl, -⟩⟩, h⟩
    · exact ⟨⟨rfl, hv⟩, fun f hf w hw hl => h (.field hv hf hw hl)⟩
    · exact absurd (.tag hv) h

/-- A node with the field `element` alone. -/
theorem isNode_and_iff_of_element (tag : Tag) (ht : tag.fields = [.element])
    {fs : List (String × Json)} {e j : Json} (he : HasField fs "element" e) :
    IsNode tag.name fs j ∧ ¬ Lax e ↔ IsLooseNode tag fs j ∧ ¬ Lax j := by
  simpa [ht, Field.key, laxIn_iff, he.forall_iff] using isNode_and_iff tag fs j

mutual

/-- **A loose form is a form exactly if it is not lax.** -/
theorem form_iff : ∀ (t : Ty) {j : Json}, Form t j ↔ LooseForm t j ∧ ¬ Lax j
  | .primitive p, j | .predefined p, j => by
    constructor
    · rintro rfl
      exact ⟨rfl, nofun⟩
    · exact And.left
  | .reference n, j => by
    simp only [Form, LooseForm, ← exists_and_right]
    refine exists_congr fun fs => ?_
    have key : IsNode "reference" fs j ↔ IsLooseNode .reference fs j ∧ ¬ Lax j := by
      simpa [Tag.name, Tag.fields, laxIn_iff] using isNode_and_iff .reference fs j
    rw [key, and_right_comm]
  | .array r t, j => by
    simp only [Form, LooseForm, form_iff t, ← exists_and_right]
    refine exists₂_congr fun fs e => ?_
    have key (he : HasField fs "element" e) :
        IsNode "array" fs j ∧ ¬ Lax e ↔ IsLooseNode .array fs j ∧ ¬ Lax j := by
      simpa [Tag.name, Tag.fields, Field.key, laxIn_iff, he.forall_iff] using
        isNode_and_iff .array fs j
    grind
  | .operator o t, j => by
    have key {fs e} (he : HasField fs "element" e) :=
      isNode_and_iff_of_element o.tag (by cases o <;> rfl) (j := j) he
    cases o <;>
    · simp only [Form, LooseForm, form_iff t, ← exists_and_right]
      refine exists₂_congr fun fs e => ?_
      grind [Operator.tag, Tag.name]
  | .withDefault t v, j => by
    simp only [Form, LooseForm, form_iff t, ← exists_and_right]
    refine exists₂_congr fun fs e => ?_
    have key (he : HasField fs "element" e) :
        IsNode "with_default" fs j ∧ ¬ Lax e ↔ IsLooseNode .withDefault fs j ∧ ¬ Lax j := by
      simpa [Tag.name, Tag.fields, Field.key, laxIn_iff, he.forall_iff] using
        isNode_and_iff .withDefault fs j
    grind
  | .function t ts, j => by
    simp only [Form, LooseForm, form_iff t, listForm_iff ts, ← exists_and_right]
    refine exists₃_congr fun fs e es => ?_
    have key (he : HasField fs "returnType" e) (hes : HasField fs "argumentTypes" (.array es)) :
        IsNode "function" fs j ∧ ¬ Lax e ∧ (∀ i ∈ es, ¬ Lax i) ↔
          IsLooseNode .function fs j ∧ ¬ Lax j := by
      simpa [Tag.name, Tag.fields, Field.key, laxIn_iff, he.forall_iff, hes.forall_iff] using
        isNode_and_iff .function fs j
    grind
  | .objectLiteral ts ms f, j => by
    simp only [Form, LooseForm, listForm_iff ts, membersForm_iff ms, ← exists_and_right]
    refine exists₃_congr fun fs es os => ?_
    have key (hes : HasField fs "mixins" (.array es)) (hos : HasField fs "members" (.array os)) :
        IsNode "object_literal" fs j ∧ (∀ i ∈ es, ¬ Lax i) ∧ (∀ i ∈ os, ¬ LaxMember i) ↔
          IsLooseNode .objectLiteral fs j ∧ ¬ Lax j := by
      simpa [Tag.name, Tag.fields, Field.key, laxIn_iff, hes.forall_iff, hos.forall_iff] using
        isNode_and_iff .objectLiteral fs j
    grind
  | .union ts, j => by
    simp only [Form, LooseForm, listForm_iff ts, ← exists_and_right]
    refine exists₂_congr fun fs es => ?_
    have key (hes : HasField fs "elements" (.array es)) :
        IsNode "union" fs j ∧ (∀ i ∈ es, ¬ Lax i) ↔ IsLooseNode .union fs j ∧ ¬ Lax j := by
      simpa [Tag.name, Tag.fields, Field.key, laxIn_iff, hes.forall_iff] using
        isNode_and_iff .union fs j
    grind
  | .enumeration p, j => by
    simp only [Form, LooseForm, ← exists_and_right]
    refine exists_congr fun fs => ?_
    have key : IsNode "enum" fs j ↔ IsLooseNode .enumeration fs j ∧ ¬ Lax j := by
      simpa [Tag.name, Tag.fields, laxIn_iff] using isNode_and_iff .enumeration fs j
    rw [key, and_right_comm]
  | .event p t, j => by
    have key {fs e} (he : HasField fs "element" e) :=
      isNode_and_iff_of_element p.tag (by cases p <;> rfl) (j := j) he
    cases p <;>
    · simp only [Form, LooseForm, form_iff t, ← exists_and_right]
      refine exists₂_congr fun fs e => ?_
      grind [EventPhase.tag, Tag.name]

/-- The items of a list. -/
theorem listForm_iff : ∀ (ts : List Ty) {js : List Json},
    ListForm ts js ↔ LooseListForm ts js ∧ ∀ e ∈ js, ¬ Lax e
  | [], js => by
    constructor
    · rintro rfl
      exact ⟨rfl, nofun⟩
    · exact And.left
  | t :: ts, js => by
    simp only [ListForm, LooseListForm, form_iff t, listForm_iff ts, ← exists_and_right]
    refine exists₂_congr fun e es => ?_
    constructor
    · rintro ⟨rfl, ⟨h, hl⟩, hs, hls⟩
      exact ⟨⟨rfl, h, hs⟩, List.forall_mem_cons.2 ⟨hl, hls⟩⟩
    · rintro ⟨⟨rfl, h, hs⟩, hl⟩
      rw [List.forall_mem_cons] at hl
      exact ⟨rfl, ⟨h, hl.1⟩, hs, hl.2⟩

/-- The members of a list. -/
theorem membersForm_iff : ∀ (ms : List (Member Ty)) {js : List Json},
    MembersForm ms js ↔ LooseMembersForm ms js ∧ ∀ i ∈ js, ¬ LaxMember i
  | [], js => by
    constructor
    · rintro rfl
      exact ⟨rfl, nofun⟩
    · exact And.left
  | ⟨n, t, o, r⟩ :: ms, js => by
    constructor
    · rintro ⟨fs, e, es, rfl, hn, he, ho, hr, h, hs⟩
      obtain ⟨h, hl⟩ := (form_iff t).1 h
      obtain ⟨hs, hls⟩ := (membersForm_iff ms).1 hs
      exact ⟨⟨e, _, es, rfl, .inl ⟨fs, rfl, hn, he, ho, hr⟩, h, hs⟩,
        List.forall_mem_cons.2 ⟨(laxMember_object_iff he).not.2 hl, hls⟩⟩
    · rintro ⟨⟨e, i, es, rfl, hi, h, hs⟩, hl⟩
      rw [List.forall_mem_cons] at hl
      rcases hi with ⟨fs, rfl, hn, he, ho, hr⟩ | ⟨flags, rfl, -⟩
      · exact ⟨fs, e, es, rfl, hn, he, ho, hr,
          (form_iff t).2 ⟨h, (laxMember_object_iff he).not.1 hl.1⟩,
          (membersForm_iff ms).2 ⟨hs, hl.2⟩⟩
      · exact absurd .list hl.1

end

/-- A loose form has a number as its tag, or it is decoded alone as well. -/
theorem LooseForm.tagIsText_or {t : Ty} {j : Json} (h : LooseForm t j) :
    TagIsText j ∨ ∃ fs, j = .object fs ∧ ∃ i : Int, HasField fs "type" (.number (.integer i)) := by
  rcases exists_of_decodeTy ((decodeTy_eq_ok_iff t).2 h) with ⟨n, rfl, -⟩ | ⟨fs, rfl, hd⟩
  · exact .inl fun fs => nofun
  · obtain ⟨tag, -, ⟨v, hv, rfl | ⟨i, rfl, -⟩⟩, -⟩ := decodeTy_object_eq_ok_iff.1 hd
    · refine .inl ?_
      rintro fs ⟨⟩
      exact ⟨_, hv⟩
    · exact .inr ⟨fs, rfl, i, hv⟩

/-- The tag of a form is a text. -/
theorem tagIsText_of_form {t : Ty} {j : Json} (h : Form t j) : TagIsText j := by
  obtain ⟨hloose, hl⟩ := (form_iff t).1 h
  rcases hloose.tagIsText_or with ht | ⟨fs, rfl, i, hi⟩
  · exact ht
  · exact absurd (.tag hi) hl

/-! ### Lax containers -/

/-- **The documented texts of a container**: an object with one field `types`, an object of which
each field holds a form. -/
def FormsContainer (x : Raw) (c : Container) : Prop :=
  ∃ fs k gs es, x = .object fs ∧
    fs.filter (fun f => unquote? f.1 == some "types") = [(k, .object gs)] ∧
    List.Forall₂ (fun g e => unquote? g.1 = some e.1 ∧ ∃ j, g.2.value? = some j ∧ Form e.2 j)
      gs es ∧
    c = Container.ofList es

/-- **A container that is a list, or in which a name is defined as a lax value.** -/
inductive LaxContainer : Raw → Prop
  | list {xs : List Raw} : LaxContainer (.array xs)
  | definition {fs gs : List (List Char × Raw)} {k : List Char} {g : List Char × Raw} {j : Json}
      (hk : (k, .object gs) ∈ fs) (hn : unquote? k = some "types") (hg : g ∈ gs)
      (hj : g.2.value? = some j) (h : Lax j) : LaxContainer (.object fs)

/-- **A container that is decoded is documented exactly if it is not lax.** -/
theorem formsContainer_iff {d : Nat} {x : Raw} {c : Container} (h : SpellsContainer d x c) :
    FormsContainer x c ↔ ¬ LaxContainer x := by
  obtain ⟨_, es, ⟨gs, rfl, hes⟩, rfl, rfl | ⟨fs, k, rfl, -, hf⟩⟩ := h
  · constructor
    · rintro ⟨fs, k, gs, es, hx, -⟩
      cases hx
    · exact fun hl => absurd .list hl
  · have hm : ∀ {l y}, (l, y) ∈ fs ∧ unquote? l = some "types" ↔ l = k ∧ y = .object gs := by
      intro l y
      have h : (l, y) ∈ fs.filter (fun f => unquote? f.1 == some "types") ↔ _ := List.mem_filter
      rw [hf, List.mem_singleton, Prod.mk.injEq, beq_iff_eq] at h
      exact h.symm
    constructor
    · rintro ⟨_, _, _, es', hx, hf', hes', -⟩ (_ | ⟨hk, hn, hg, hj, hl⟩)
      cases hx
      cases hf.symm.trans hf'
      cases (hm.1 ⟨hk, hn⟩).2
      obtain ⟨e, -, -, i, hi, hform⟩ := exists_of_mem_left hes' hg
      cases hj.symm.trans hi
      exact ((form_iff e.2).1 hform).2 hl
    · intro hl
      obtain ⟨hk, hn⟩ := hm.2 ⟨rfl, rfl⟩
      have hs : ∀ g ∈ gs, ∀ j, g.2.value? = some j → ¬ Lax j := fun g hg j hj hlax =>
        hl (.definition hk hn hg hj hlax)
      refine ⟨fs, k, gs, es, rfl, hf, ((List.forall₂_and_left ..).2 ⟨hs, hes⟩).imp ?_, rfl⟩
      rintro g e ⟨hg, hname, j, hj, -, -, hform⟩
      exact ⟨hname, j, hj, (form_iff e.2).2 ⟨hform, hg j hj⟩⟩

/-- A text of a container that has a documented value is documented. -/
theorem formsContainer_of_value? {x : Raw} {fs gs : List (String × Json)} {es : List (String × Ty)}
    (hx : x.value? = some (.object fs)) (ht : HasField fs "types" (.object gs))
    (hg : List.Forall₂ (fun g e => g.1 = e.1 ∧ Form e.2 g.2) gs es) :
    FormsContainer x (Container.ofList es) := by
  obtain ⟨rs, k, y, rfl, -, hrest, hy⟩ := exists_types_of_value? hx ht
  obtain ⟨ds, rfl, hds⟩ := exists_definitions_of_value? hy hg
  exact ⟨rs, k, ds, es, rfl, hrest, hds, rfl⟩

end Wire

/-- **What is decoded is documented exactly if it is not lax.** -/
theorem documented_iff_of_decode {x : Json.Raw} {s : String} (hx : x.IsText s) :
    (∀ t, Ty.decode s = .ok t → ∃ j, x.value? = some j ∧ Wire.LooseForm t j ∧
      (Wire.Form t j ↔ ¬ Wire.Lax j)) ∧
    ∀ c, Container.decode s = .ok c → (Wire.FormsContainer x c ↔ ¬ Wire.LaxContainer x) := by
  constructor
  · intro t h
    obtain ⟨j, hj, -, -, ht⟩ := (Ty.decode_eq_ok_iff hx).1 h
    refine ⟨j, hj, ht, ?_⟩
    rw [Wire.form_iff]
    exact and_iff_right ht
  · intro c h
    exact Wire.formsContainer_iff ((Container.decode_eq_ok_iff hx).1 h)

/-- An object type with a member, on its own and in a container, beside a bare name and a field of
another name. -/
theorem documented_of_decode :
    let member : Json := .object
      [("name", .string "item"), ("type", .string "string"), ("readonly", .boolean true)]
    let j : Json := .object [("type", .string "object_literal"), ("mixins", .array []),
      ("members", .array [member]), ("allMembersReadonly", .boolean false)]
    let t : Ty := .objectLiteral [] [⟨"item", .primitive .string, false, true⟩] false
    let i : Json := .object [("note", .array []),
      ("types", .object [("Box", j), ("Tag", .string "RootTag")])]
    let c := Container.ofList [("Box", t), ("Tag", .predefined .rootTag)]
    (∃ x : Json.Raw, x.IsText (j.text .compact) ∧ x.value? = some j ∧
      Ty.decode (j.text .compact) = .ok t ∧ Wire.Form t j ∧ ¬ Wire.Lax j) ∧
    ∃ x : Json.Raw, x.IsText (i.text .compact) ∧ x.value? = some i ∧
      Container.decode (i.text .compact) = .ok c ∧ Wire.FormsContainer x c ∧
      ¬ Wire.LaxContainer x := by
  intro member j t i c
  have hm : Wire.MembersForm [⟨"item", .primitive .string, false, true⟩] [member] :=
    ⟨_, .string "string", [], rfl, rfl, rfl, .inr ⟨rfl, rfl⟩, .inl rfl, rfl, rfl⟩
  have ht : Wire.Form t j := ⟨_, [], [member], ⟨rfl, rfl⟩, rfl, rfl, rfl, rfl, hm⟩
  have hloose : Wire.LooseForm t j := ((Wire.form_iff t).1 ht).1
  constructor
  · have hj : j.NoNumber := by
      simp [j, member, Json.NoNumber, Json.NoNumberItems, Json.NoNumberFields]
    obtain ⟨x, hx, hv⟩ := (Json.isText_text .compact hj).exists_raw
    have hdecode : Ty.decode (j.text .compact) = .ok t :=
      (Ty.decode_eq_ok_iff hx).2 ⟨j, hv, by decide, by decide, hloose⟩
    obtain ⟨_, hj', -, hlax⟩ := (documented_iff_of_decode hx).1 t hdecode
    cases hv.symm.trans hj'
    exact ⟨x, hx, hv, hdecode, ht, hlax.1 ht⟩
  · have hi : i.NoNumber := by
      simp [i, j, member, Json.NoNumber, Json.NoNumberItems, Json.NoNumberFields]
    obtain ⟨x, hx, hv⟩ := (Json.isText_text .compact hi).exists_raw
    have hdecode : Container.decode (i.text .compact) = .ok c :=
      (Container.decode_eq_ok_iff hx).2 <| Wire.spellsContainer_of_value? hv rfl <|
        .cons ⟨rfl, by decide, by decide, hloose⟩ (.cons ⟨rfl, by decide, by decide, rfl⟩ .nil)
    have hforms : Wire.FormsContainer x c :=
      Wire.formsContainer_of_value? hv rfl (.cons ⟨rfl, ht⟩ (.cons ⟨rfl, rfl⟩ .nil))
    exact ⟨x, hx, hv, hdecode, hforms, ((documented_iff_of_decode hx).2 c hdecode).1 hforms⟩

/-- **Not every value that is decoded is documented**: the tag of the inner node is the position of
the tag of promises. -/
theorem decode_of_numbered :
    let i : Json := .object [("type", .number (.integer 2)), ("element", .string "string")]
    let j : Json := .object
      [("type", .string "array"), ("readonly", .boolean false), ("element", i)]
    let x : Json.Raw := .object [("type".toList, .string "array".toList),
      ("readonly".toList, .boolean false), ("element".toList, .object
        [("type".toList, .number ['2']), ("element".toList, .string "string".toList)])]
    x.IsText x.text ∧ x.value? = some j ∧
      Ty.decode x.text = .ok (.array false (.operator .promise (.primitive .string))) ∧
      ∀ t, ¬ Wire.Form t j := by
  intro i j x
  have hw : Decimal.isNumber ['2'] = true := by decide
  have hx : x.IsText x.text := Json.Raw.isText_text <| by
    simp (disch := decide) [x, Json.Raw.Valid, Json.Raw.ValidFields, Json.quotable_of_isPlain, hw]
  have hn : Json.numberOf? ['2'] = some (.integer 2) := rfl
  have hv : x.value? = some j := by
    simp (disch := decide) only [x, Json.Raw.value?, Json.Raw.fieldValues?, hn,
      Json.unquote?_of_isPlain, -String.reduceToList]
    rfl
  have ht : Wire.LooseForm (.array false (.operator .promise (.primitive .string))) j :=
    ⟨_, i, ⟨rfl, _, rfl, .inl rfl⟩, rfl, rfl, _, _, ⟨rfl, _, rfl, .inr ⟨2, rfl, rfl⟩⟩, rfl, rfl⟩
  have hi : Wire.Lax i := .tag rfl
  have harray : Wire.HasField [("type", .string "array"), ("readonly", .boolean false),
      ("element", i)] "type" (.string Wire.Tag.array.name) := rfl
  have hj : Wire.Lax j :=
    .field harray (List.mem_cons_of_mem _ List.mem_cons_self) rfl (.type (.inl rfl) hi)
  refine ⟨hx, hv, (Ty.decode_eq_ok_iff hx).2 ⟨j, hv, by decide, by decide, ht⟩, ?_⟩
  exact fun t h => ((Wire.form_iff t).1 h).2 hj

end NativeTypes
