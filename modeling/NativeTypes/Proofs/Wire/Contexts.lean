import NativeTypes.Proofs.Frames
import NativeTypes.Proofs.Json.Raw.Texts
import NativeTypes.Proofs.Wire.Containers
import NativeTypes.Proofs.Wire.RoundTrip

/-! # Types inside other types

A type is decoded inside a node as it is decoded alone, except that its tag may be a number there.

* `Wire.Context` is a text of a node with a hole where the text of a part stands, as `Ty.Frame` is a
  type with a hole where one of its parts stands. `Context.Spells K F` says that all other parts of
  `K` are what `F` has there.
* `Context.decode_fill_eq_ok_iff`: **what a context is decoded to** with a text in its hole. -/

namespace NativeTypes

namespace Wire

open Json (Raw unquote?)

/-! ### Texts with a hole -/

/-- Where the hole is in the value of a field: it is the value, an item of it or the type of a
member of it. -/
inductive Place where
  | whole
  | item (left right : List Raw)
  | member (left right : List Raw) (before : List (List Char × Raw)) (key : List Char)
      (after : List (List Char × Raw))

/-- The value of the field with a text in the hole. -/
def Place.fill : Place → Raw → Raw
  | whole, x => x
  | item left right, x => .array (left ++ x :: right)
  | member left right before key after, x =>
    .array (left ++ .object (before ++ (key, x) :: after) :: right)

/-- A node with a hole in the value of one of its fields. -/
structure Context where
  /-- The fields before the one with the hole. -/
  before : List (List Char × Raw)
  /-- The name of the field with the hole. -/
  key : List Char
  /-- Where the hole is in its value. -/
  place : Place
  /-- The fields after it. -/
  after : List (List Char × Raw)

/-- The node with a text in its hole. -/
def Context.fill (K : Context) (x : Raw) : Raw :=
  .object (K.before ++ (K.key, K.place.fill x) :: K.after)

/-- A field of a name that no other field has, among fields that have the values `fs` and `gs`. -/
structure Surrounds (before after : List (List Char × Raw)) (key : List Char) (n : String)
    (fs gs : List (String × Json)) : Prop where
  before : Raw.fieldValues? before = some fs
  after : Raw.fieldValues? after = some gs
  key : unquote? key = some n
  lacks : LacksField (fs ++ gs) n

/-- The hole is an item among others. -/
def Place.SpellsItem (p : Place) (left right : List Ty) : Prop :=
  ∃ ls rs es gs, p = .item ls rs ∧ Raw.itemValues? ls = some es ∧ LooseListForm left es ∧
    Raw.itemValues? rs = some gs ∧ LooseListForm right gs

/-- The hole is the type of a member among others. -/
def Place.SpellsMember (p : Place) (left right : List (Member Ty)) (n : String) (o r : Bool) :
    Prop :=
  ∃ ls rs es gs before key after bs as, p = .member ls rs before key after ∧
    Raw.itemValues? ls = some es ∧ LooseMembersForm left es ∧
    Raw.itemValues? rs = some gs ∧ LooseMembersForm right gs ∧
    Surrounds before after key "type" bs as ∧ HasField (bs ++ as) "name" (.string n) ∧
    HasFlag (bs ++ as) "optional" o ∧ HasFlag (bs ++ as) "readonly" r

/-- A node with a tag and with a hole in the value of a field. -/
def Context.IsNode (K : Context) (tag : Tag) (f : Field) (bs as : List (String × Json)) : Prop :=
  Surrounds K.before K.after K.key f.key bs as ∧ HasField (bs ++ as) "type" (.string tag.name)

/-- **The texts of a type with a hole**: apart from the hole, they are decoded. -/
def Context.Spells (K : Context) : Ty.Frame → Prop
  | .array r => ∃ bs as, K.IsNode .array .element bs as ∧ K.place = .whole ∧
      HasField (bs ++ as) "readonly" (.boolean r)
  | .operator o => ∃ bs as, K.IsNode o.tag .element bs as ∧ K.place = .whole
  | .withDefault v => ∃ bs as, K.IsNode .withDefault .element bs as ∧ K.place = .whole ∧
      HasField (bs ++ as) "defaultValue" (.string v)
  | .result ts => ∃ bs as es, K.IsNode .function .returnType bs as ∧ K.place = .whole ∧
      HasField (bs ++ as) "argumentTypes" (.array es) ∧ LooseListForm ts es
  | .argument t left right => ∃ bs as e, K.IsNode .function .argumentTypes bs as ∧
      K.place.SpellsItem left right ∧ HasField (bs ++ as) "returnType" e ∧ LooseForm t e
  | .mixin left right ms f => ∃ bs as os, K.IsNode .objectLiteral .mixins bs as ∧
      K.place.SpellsItem left right ∧ HasField (bs ++ as) "members" (.array os) ∧
      LooseMembersForm ms os ∧ HasField (bs ++ as) "allMembersReadonly" (.boolean f)
  | .member ts left right n o r f => ∃ bs as es, K.IsNode .objectLiteral .members bs as ∧
      K.place.SpellsMember left right n o r ∧ HasField (bs ++ as) "mixins" (.array es) ∧
      LooseListForm ts es ∧ HasField (bs ++ as) "allMembersReadonly" (.boolean f)
  | .alternative left right => ∃ bs as, K.IsNode .union .elements bs as ∧
      K.place.SpellsItem left right
  | .event e => ∃ bs as, K.IsNode e.tag .element bs as ∧ K.place = .whole

/-! ### The fields around a hole -/

theorem hasField_insert_self {bs as : List (String × Json)} {k : String} {v : Json}
    (h : LacksField (bs ++ as) k) : HasField (bs ++ (k, v) :: as) k v := by
  rw [LacksField, List.filter_append, List.append_eq_nil_iff] at h
  simp [HasField, List.filter_append, h.1, h.2]

theorem hasField_insert {bs as : List (String × Json)} {k l : String} {v w : Json}
    (h : HasField (bs ++ as) k v) (hl : l ≠ k) : HasField (bs ++ (l, w) :: as) k v := by
  simpa [HasField, List.filter_append, hl] using h

theorem hasFlag_insert {bs as : List (String × Json)} {k l : String} {b : Bool} {w : Json}
    (h : HasFlag (bs ++ as) k b) (hl : l ≠ k) : HasFlag (bs ++ (l, w) :: as) k b := by
  simpa [HasFlag, HasField, LacksField, List.filter_append, hl] using h

theorem fieldValues?_append (fs gs : List (List Char × Raw)) :
    Raw.fieldValues? (fs ++ gs) =
      (Raw.fieldValues? fs).bind fun bs => (Raw.fieldValues? gs).map (bs ++ ·) := by
  induction fs with
  | nil => simp [Raw.fieldValues?]
  | cons f fs ih =>
    obtain ⟨k, x⟩ := f
    simp only [List.cons_append, Raw.fieldValues?, ih]
    cases unquote? k <;> cases x.value? <;> cases Raw.fieldValues? fs <;>
      simp [Function.comp_def]

theorem itemValues?_append (xs ys : List Raw) :
    Raw.itemValues? (xs ++ ys) =
      (Raw.itemValues? xs).bind fun es => (Raw.itemValues? ys).map (es ++ ·) := by
  induction xs with
  | nil => simp [Raw.itemValues?]
  | cons x xs ih =>
    simp only [List.cons_append, Raw.itemValues?, ih]
    cases x.value? <;> cases Raw.itemValues? xs <;> simp [Function.comp_def]

/-- The value of an object with a hole, as far as the value of the field with the hole is known. -/
theorem Surrounds.value? {before after : List (List Char × Raw)} {key : List Char} {n : String}
    {fs gs : List (String × Json)} (h : Surrounds before after key n fs gs) {x y : Raw}
    {c : Json → Json} (hy : y.value? = x.value?.map c) :
    (Raw.object (before ++ (key, y) :: after)).value? =
      x.value?.map fun j => .object (fs ++ (n, c j) :: gs) := by
  rw [Raw.value?, fieldValues?_append, h.before, Raw.fieldValues?, h.key, h.after, hy]
  cases x.value? <;> rfl

/-- The value of a list with a hole. -/
theorem value?_array_insert {left right : List Raw} {es gs : List Json}
    (hl : Raw.itemValues? left = some es) (hr : Raw.itemValues? right = some gs) {x y : Raw}
    {c : Json → Json} (hy : y.value? = x.value?.map c) :
    (Raw.array (left ++ y :: right)).value? = x.value?.map fun j => .array (es ++ c j :: gs) := by
  rw [Raw.value?, itemValues?_append, hl, Raw.itemValues?, hr, hy]
  cases x.value? <;> rfl

/-! ### What is decoded around a hole -/

/-- What is decoded is decoded item by item. -/
theorem exists_of_decodeTys {js : List Json} {ts : List Ty} (h : decodeTys js = .ok ts) {j : Json}
    (hj : j ∈ js) : ∃ t, decodeTy j = .ok t := by
  induction ts generalizing js with
  | nil =>
    rw [decodeTys_eq_nil_iff] at h
    cases h ▸ hj
  | cons t ts ih =>
    obtain ⟨e, es, rfl, he, hes⟩ := decodeTys_eq_cons_iff.1 h
    rcases List.mem_cons.1 hj with rfl | hj
    · exact ⟨t, he⟩
    · exact ih hes hj

theorem exists_of_decodeMemberItems {js : List Json} {ms : List (Member Ty)}
    (h : decodeMemberItems js = .ok ms) {j : Json} (hj : j ∈ js) :
    ∃ m, decodeMember j = .ok m := by
  induction ms generalizing js with
  | nil =>
    rw [decodeMemberItems_eq_nil_iff] at h
    cases h ▸ hj
  | cons m ms ih =>
    obtain ⟨i, is, rfl, hi, his⟩ := decodeMemberItems_eq_cons_iff.1 h
    rcases List.mem_cons.1 hj with rfl | hj
    · exact ⟨m, hi⟩
    · exact ih his hj

theorem LooseListForm.insert {left right : List Ty} {es gs : List Json} {t : Ty} {j : Json}
    (hl : LooseListForm left es) (h : LooseForm t j) (hr : LooseListForm right gs) :
    LooseListForm (left ++ t :: right) (es ++ j :: gs) := by
  induction left generalizing es with
  | nil =>
    cases hl
    exact ⟨j, gs, rfl, h, hr⟩
  | cons u left ih =>
    obtain ⟨e, es, rfl, he, hes⟩ := hl
    exact ⟨e, _, rfl, he, ih hes⟩

theorem LooseMembersForm.insert {left right : List (Member Ty)} {es gs : List Json} {n : String}
    {t : Ty} {o r : Bool} {e i : Json} (hl : LooseMembersForm left es)
    (hi : IsLooseMember n e o r i) (h : LooseForm t e) (hr : LooseMembersForm right gs) :
    LooseMembersForm (left ++ ⟨n, t, o, r⟩ :: right) (es ++ i :: gs) := by
  induction left generalizing es with
  | nil =>
    cases hl
    exact ⟨e, i, gs, rfl, hi, h, hr⟩
  | cons m left ih =>
    obtain ⟨_, _, _, _⟩ := m
    obtain ⟨e', i', is, rfl, hi', he', his⟩ := hl
    exact ⟨e', i', _, rfl, hi', he', ih his⟩

/-- The value `c j` of a context with the value `j` in its hole: it is decoded where `j` is
decoded, to the frame with the type of `j` in its hole. -/
structure Fills (F : Ty.Frame) (c : Json → Json) : Prop where
  tagIsText : ∀ j, TagIsText (c j)
  form : ∀ {t j}, LooseForm t j → LooseForm (F.fill t) (c j)
  hole : ∀ {u j}, decodeTy (c j) = .ok u → ∃ t, decodeTy j = .ok t

/-- **What a context is decoded to** with a value in its hole. -/
theorem Fills.looseForm_iff {F : Ty.Frame} {c : Json → Json} (h : Fills F c) {u : Ty} {j : Json} :
    LooseForm u (c j) ↔ ∃ t, F.fill t = u ∧ LooseForm t j := by
  constructor
  · intro hu
    rw [← decodeTy_eq_ok_iff] at hu
    obtain ⟨t, ht⟩ := h.hole hu
    rw [decodeTy_eq_ok_iff] at ht
    cases hu.symm.trans ((decodeTy_eq_ok_iff _).2 (h.form ht))
    exact ⟨t, rfl, ht⟩
  · rintro ⟨t, rfl, ht⟩
    exact h.form ht

/-- A node with a hole is decoded where the value of the field with the hole is decoded. -/
theorem Context.IsNode.exists_fills {K : Context} {tag : Tag} {f : Field}
    {bs as : List (String × Json)} (hK : K.IsNode tag f bs as) (hf : f ∈ tag.fields) {F : Ty.Frame}
    {c : Json → Json} (hc : ∀ x : Raw, (K.place.fill x).value? = x.value?.map c)
    (hole : ∀ {s : Slots} {j : Json}, s.Fits f (c j) → ∃ t, decodeTy j = .ok t)
    (form : ∀ {fs : List (String × Json)} {t : Ty} {j : Json}, IsLooseNode tag fs (.object fs) →
      HasField fs f.key (c j) →
      (∀ {k v}, HasField (bs ++ as) k v → f.key ≠ k → HasField fs k v) →
      LooseForm t j → LooseForm (F.fill t) (.object fs)) :
    ∃ c, (∀ x : Raw, (K.fill x).value? = x.value?.map c) ∧ Fills F c := by
  obtain ⟨hs, ht⟩ := hK
  have hne : f.key ≠ "type" := by cases f <;> decide
  refine ⟨_, fun x => hs.value? (hc x), ?_, ?_, ?_⟩
  · rintro j fs ⟨⟩
    exact ⟨_, hasField_insert ht hne⟩
  · intro t j h
    exact form ⟨rfl, _, hasField_insert ht hne, .inl rfl⟩ (hasField_insert_self hs.lacks)
      (fun hv hk => hasField_insert hv hk) h
  · intro u j h
    rw [decodeTy_object, tagOf_of_text (hasField_insert ht hne), tag.ofName_name] at h
    obtain ⟨_, he, h⟩ := bind_eq_ok_iff.1 h
    cases he
    obtain ⟨d, hd, -⟩ := bind_eq_ok_iff.1 h
    obtain ⟨s, hfits, -⟩ := draftOf_eq_ok_iff.1 hd
    obtain ⟨v, hv, hfit⟩ := hfits f hf
    cases hv.symm.trans (hasField_insert_self hs.lacks)
    exact hole hfit

/-- The hole is the value of the field. -/
theorem exists_of_fits_ty {o : Option Ty} {j : Json} (h : ∃ t, o = some t ∧ decodeTy j = .ok t) :
    ∃ t, decodeTy j = .ok t :=
  h.imp fun _ => And.right

/-- The hole is an item of the value of the field. -/
theorem exists_of_fits_list {o : Option (List Ty)} {es gs : List Json} {j : Json}
    (h : ∃ ts, o = some ts ∧ decodeList (.array (es ++ j :: gs)) = .ok ts) :
    ∃ t, decodeTy j = .ok t := by
  obtain ⟨ts, -, h⟩ := h
  obtain ⟨_, he, h⟩ := decodeList_eq_ok_iff.1 h
  cases he
  exact exists_of_decodeTys h (List.mem_append_right _ List.mem_cons_self)

/-- The hole is the type of a member in the value of the field. -/
theorem exists_of_fits_members {o : Option (List (Member Ty))} {es gs : List Json}
    {bs as : List (String × Json)} {j : Json} (hl : LacksField (bs ++ as) "type")
    (h : ∃ ms, o = some ms ∧
      decodeMembers (.array (es ++ .object (bs ++ ("type", j) :: as) :: gs)) = .ok ms) :
    ∃ t, decodeTy j = .ok t := by
  obtain ⟨ms, -, h⟩ := h
  obtain ⟨_, he, h⟩ := decodeMembers_eq_ok_iff.1 h
  cases he
  obtain ⟨⟨n, t, o, r⟩, hm⟩ :=
    exists_of_decodeMemberItems h (List.mem_append_right _ List.mem_cons_self)
  obtain ⟨e, -, he, -, -, ht⟩ := decodeMember_object_eq_ok_iff.1 hm
  cases he.symm.trans (hasField_insert_self hl)
  exact ⟨t, ht⟩

theorem Place.SpellsItem.exists_value {p : Place} {left right : List Ty}
    (h : p.SpellsItem left right) : ∃ es gs,
      (∀ x : Raw, (p.fill x).value? = x.value?.map fun j => .array (es ++ j :: gs)) ∧
      ∀ {t j}, LooseForm t j → LooseListForm (left ++ t :: right) (es ++ j :: gs) := by
  obtain ⟨ls, rs, es, gs, rfl, hls, hl, hrs, hr⟩ := h
  exact ⟨es, gs, fun x => value?_array_insert hls hrs Option.map_id'.symm,
    fun h => hl.insert h hr⟩

theorem Place.SpellsMember.exists_value {p : Place} {left right : List (Member Ty)} {n : String}
    {o r : Bool} (h : p.SpellsMember left right n o r) : ∃ es gs bs as,
      LacksField (bs ++ as) "type" ∧
      (∀ x : Raw, (p.fill x).value? =
        x.value?.map fun j => .array (es ++ .object (bs ++ ("type", j) :: as) :: gs)) ∧
      ∀ {t j}, LooseForm t j → LooseMembersForm (left ++ ⟨n, t, o, r⟩ :: right)
        (es ++ .object (bs ++ ("type", j) :: as) :: gs) := by
  obtain ⟨ls, rs, es, gs, before, key, after, bs, as, rfl, hls, hl, hrs, hr, hs, hn, ho, hro⟩ := h
  refine ⟨es, gs, bs, as, hs.lacks,
    fun x => value?_array_insert hls hrs (hs.value? Option.map_id'.symm), fun h => ?_⟩
  have hi : ∀ e, IsLooseMember n e o r (.object (bs ++ ("type", e) :: as)) := fun e =>
    .inl ⟨_, rfl, hasField_insert hn (by decide), hasField_insert_self hs.lacks,
      hasFlag_insert ho (by decide), hasFlag_insert hro (by decide)⟩
  exact hl.insert (hi _) h hr

/-- **The value of a text with a hole.** -/
theorem Context.Spells.exists_fills {K : Context} {F : Ty.Frame} (h : K.Spells F) :
    ∃ c, (∀ x : Raw, (K.fill x).value? = x.value?.map c) ∧ Fills F c := by
  have whole : K.place = .whole → ∀ x : Raw, (K.place.fill x).value? = x.value?.map id := by
    intro hp x
    rw [hp, Option.map_id]
    rfl
  cases F with
  | array r =>
    obtain ⟨bs, as, hK, hp, hr⟩ := h
    exact hK.exists_fills (by decide) (whole hp) exists_of_fits_ty fun hj he keep ht =>
      ⟨_, _, hj, keep hr (by decide), he, ht⟩
  | operator o =>
    obtain ⟨bs, as, hK, hp⟩ := h
    exact hK.exists_fills (by cases o <;> decide) (whole hp) exists_of_fits_ty fun hj he _ ht =>
      ⟨_, _, hj, he, ht⟩
  | withDefault v =>
    obtain ⟨bs, as, hK, hp, hv⟩ := h
    exact hK.exists_fills (by decide) (whole hp) exists_of_fits_ty fun hj he keep ht =>
      ⟨_, _, hj, he, keep hv (by decide), ht⟩
  | result ts =>
    obtain ⟨bs, as, es, hK, hp, hes, hl⟩ := h
    exact hK.exists_fills (by decide) (whole hp) exists_of_fits_ty fun hj he keep ht =>
      ⟨_, _, es, hj, he, keep hes (by decide), ht, hl⟩
  | argument t left right =>
    obtain ⟨bs, as, e, hK, hp, he, ht⟩ := h
    obtain ⟨es, gs, hv, hl⟩ := hp.exists_value
    exact hK.exists_fills (by decide) hv exists_of_fits_list fun hj hes keep h =>
      ⟨_, e, _, hj, keep he (by decide), hes, ht, hl h⟩
  | mixin left right ms f =>
    obtain ⟨bs, as, os, hK, hp, hos, hm, hf⟩ := h
    obtain ⟨es, gs, hv, hl⟩ := hp.exists_value
    exact hK.exists_fills (by decide) hv exists_of_fits_list fun hj hes keep h =>
      ⟨_, _, os, hj, hes, keep hos (by decide), keep hf (by decide), hl h, hm⟩
  | member ts left right n o r f =>
    obtain ⟨bs, as, es, hK, hp, hes, hl, hf⟩ := h
    obtain ⟨os, gs, cs, ds, hs, hv, hm⟩ := hp.exists_value
    exact hK.exists_fills (by decide) hv (exists_of_fits_members hs) fun hj hos keep h =>
      ⟨_, es, _, hj, keep hes (by decide), hos, keep hf (by decide), hl, hm h⟩
  | alternative left right =>
    obtain ⟨bs, as, hK, hp⟩ := h
    obtain ⟨es, gs, hv, hl⟩ := hp.exists_value
    exact hK.exists_fills (by decide) hv exists_of_fits_list fun hj hes _ h =>
      ⟨_, _, hj, hes, hl h⟩
  | event e =>
    obtain ⟨bs, as, hK, hp⟩ := h
    exact hK.exists_fills (by cases e <;> decide) (whole hp) exists_of_fits_ty fun hj he _ ht =>
      ⟨_, _, hj, he, ht⟩

/-! ### Depth -/

theorem depthOfItems_append (xs ys : List Raw) : Raw.depthOfItems (xs ++ ys) =
    max (Raw.depthOfItems xs) (Raw.depthOfItems ys) := by
  induction xs with
  | nil => simp [Raw.depthOfItems]
  | cons x xs ih => simp only [List.cons_append, Raw.depthOfItems, ih, Nat.max_assoc]

theorem depthOfFields_append (fs gs : List (List Char × Raw)) : Raw.depthOfFields (fs ++ gs) =
    max (Raw.depthOfFields fs) (Raw.depthOfFields gs) := by
  induction fs with
  | nil => simp [Raw.depthOfFields]
  | cons f fs ih => simp only [List.cons_append, Raw.depthOfFields, ih, Nat.max_assoc]

theorem Place.depth_fill_le (p : Place) (x : Raw) :
    (p.fill x).depth ≤ max (p.fill .null).depth (x.depth + 2) := by
  cases p with
  | whole =>
    simp only [fill]
    omega
  | item | member =>
    simp only [fill, Raw.depth, depthOfItems_append, depthOfFields_append, Raw.depthOfItems,
      Raw.depthOfFields]
    omega

/-- A hole is at most three levels below the node. -/
theorem Context.depth_fill_le (K : Context) (x : Raw) :
    (K.fill x).depth ≤ max (K.fill .null).depth (x.depth + 3) := by
  have h := K.place.depth_fill_le x
  simp only [fill, Raw.depth, depthOfFields_append, Raw.depthOfFields]
  omega

/-! ### Decoding -/

/-- **What a node is decoded to** with a text in the hole of one of its parts: the text is decoded
as it is alone, or it has a number as its tag, with which it is not decoded alone. -/
theorem Context.decode_fill_eq_ok_iff {K : Context} {F : Ty.Frame} (hK : K.Spells F)
    (hd : (K.fill .null).depth ≤ 127) {x : Raw} {v w : String} (hv : x.IsText v)
    (hx : x.depth ≤ 120) (hw : (K.fill x).IsText w) (u : Ty) :
    Ty.decode w = .ok u ↔ ∃ t, F.fill t = u ∧ (Ty.decode v = .ok t ∨
      ∃ fs, x.value? = some (.object fs) ∧ LooseForm t (.object fs) ∧
        ∃ i : Int, HasField fs "type" (.number (.integer i))) := by
  obtain ⟨c, hc, hF⟩ := hK.exists_fills
  have hdepth : ∀ {j}, x.value? = some j → j.depth ≤ 127 := fun hj =>
    Json.Raw.depth_of_value? hj ▸ Nat.le_trans hx (by decide)
  rw [Ty.decode_eq_ok_iff hw]
  constructor
  · rintro ⟨i, hi, -, -, hu⟩
    rw [hc, Option.map_eq_some_iff] at hi
    obtain ⟨j, hj, rfl⟩ := hi
    obtain ⟨t, rfl, ht⟩ := hF.looseForm_iff.1 hu
    refine ⟨t, rfl, ?_⟩
    rcases ht.tagIsText_or with htag | ⟨fs, rfl, i, hi⟩
    · exact .inl ((Ty.decode_eq_ok_iff hv).2 ⟨j, hj, hdepth hj, htag, ht⟩)
    · exact .inr ⟨fs, hj, ht, i, hi⟩
  · rintro ⟨t, rfl, h⟩
    obtain ⟨j, hj, ht⟩ : ∃ j, x.value? = some j ∧ LooseForm t j := by
      rcases h with h | ⟨fs, hj, ht, -⟩
      · obtain ⟨j, hj, -, -, ht⟩ := (Ty.decode_eq_ok_iff hv).1 h
        exact ⟨j, hj, ht⟩
      · exact ⟨_, hj, ht⟩
    have hi : (K.fill x).value? = some (c j) := by rw [hc, hj]; rfl
    refine ⟨c j, hi, ?_, hF.tagIsText j, hF.looseForm_iff.2 ⟨t, rfl, ht⟩⟩
    rw [Json.Raw.depth_of_value? hi]
    exact Nat.le_trans (K.depth_fill_le x) (by omega)

/-- The hole is the first of two arguments. -/
theorem Context.decode_fill_argument :
    let K : Context := ⟨[("returnType".toList, .string "void".toList)], "argumentTypes".toList,
      .item [] [.string "string".toList], [("type".toList, .string "function".toList)]⟩
    let F : Ty.Frame := .argument (.primitive .void) [] [.primitive .string]
    let x : Raw := .object [("element".toList, .string "RootTag".toList),
      ("type".toList, .string "promise".toList)]
    let t : Ty := .operator .promise (.predefined .rootTag)
    (K.Spells F ∧ (K.fill .null).depth ≤ 127 ∧ x.IsText x.text ∧ x.depth ≤ 120 ∧
      (K.fill x).IsText (K.fill x).text) ∧ Ty.decode x.text = .ok t ∧
      Ty.decode (K.fill x).text = .ok (.function (.primitive .void) [t, .primitive .string]) := by
  intro K F x t
  have hx : x.IsText x.text := Json.Raw.isText_text <| by
    simp (disch := decide) [x, Json.Raw.Valid, Json.Raw.ValidFields, Json.quotable_of_isPlain]
  have hKx : (K.fill x).IsText (K.fill x).text := Json.Raw.isText_text <| by
    simp (disch := decide) [K, x, fill, Place.fill, Json.Raw.Valid, Json.Raw.ValidFields,
      Json.Raw.ValidItems, Json.quotable_of_isPlain]
  have hv : x.value? =
      some (.object [("element", .string "RootTag"), ("type", .string "promise")]) := by
    simp (disch := decide) only [x, Json.Raw.value?, Json.Raw.fieldValues?,
      Json.unquote?_of_isPlain, -String.reduceToList]
    rfl
  have hs : Surrounds K.before K.after K.key "argumentTypes"
      [("returnType", .string "void")] [("type", .string "function")] := by
    refine ⟨?_, ?_, Json.unquote?_of_isPlain (by decide), rfl⟩
    all_goals
      simp (disch := decide) only [K, Json.Raw.value?, Json.Raw.fieldValues?,
        Json.unquote?_of_isPlain, -String.reduceToList]
      rfl
  have hp : K.place.SpellsItem [] [.primitive .string] := by
    refine ⟨[], _, [], [.string "string"], rfl, rfl, rfl, ?_, _, [], rfl, rfl, rfl⟩
    rw [Json.Raw.itemValues?, Json.Raw.value?, Json.unquote?_of_isPlain (by decide)]
    rfl
  have hK : K.Spells F := ⟨_, _, .string "void", ⟨hs, rfl⟩, hp, rfl, rfl⟩
  have hd : (K.fill .null).depth ≤ 127 := by decide
  have hxd : x.depth ≤ 120 := by decide
  have ht : Ty.decode x.text = .ok t := (Ty.decode_eq_ok_iff hx).2
    ⟨_, hv, by decide, by decide, _, _, ⟨rfl, _, rfl, .inl rfl⟩, rfl, rfl⟩
  exact ⟨⟨hK, hd, hx, hxd, hKx⟩, ht,
    (decode_fill_eq_ok_iff hK hd hx hxd hKx _).2 ⟨t, rfl, .inl ht⟩⟩

/-- **A text may be decoded inside a node and not alone**: its tag is the position of the tag of
promises. -/
theorem Context.decode_fill_of_numbered :
    let K : Context := ⟨[("type".toList, .string "array".toList),
      ("readonly".toList, .boolean false)], "element".toList, .whole, []⟩
    let x : Raw := .object
      [("type".toList, .number ['2']), ("element".toList, .string "string".toList)]
    (K.Spells (.array false) ∧ x.IsText x.text ∧ x.depth ≤ 120 ∧
      (K.fill x).IsText (K.fill x).text) ∧
      Ty.decode (K.fill x).text = .ok (.array false (.operator .promise (.primitive .string))) ∧
      ∀ t, Ty.decode x.text ≠ .ok t := by
  intro K x
  have hw : Decimal.isNumber ['2'] = true := by decide
  have hx : x.IsText x.text := Json.Raw.isText_text <| by
    simp (disch := decide) [x, Json.Raw.Valid, Json.Raw.ValidFields, Json.quotable_of_isPlain, hw]
  have hKx : (K.fill x).IsText (K.fill x).text := Json.Raw.isText_text <| by
    simp (disch := decide) [K, x, fill, Place.fill, Json.Raw.Valid, Json.Raw.ValidFields,
      Json.quotable_of_isPlain, hw]
  have hn : Json.numberOf? ['2'] = some (.integer 2) := rfl
  have hv : x.value? =
      some (.object [("type", .number (.integer 2)), ("element", .string "string")]) := by
    simp (disch := decide) only [x, Json.Raw.value?, Json.Raw.fieldValues?, hn,
      Json.unquote?_of_isPlain, -String.reduceToList]
    rfl
  have hs : Surrounds K.before K.after K.key "element"
      [("type", .string "array"), ("readonly", .boolean false)] [] := by
    refine ⟨?_, rfl, Json.unquote?_of_isPlain (by decide), rfl⟩
    simp (disch := decide) only [K, Json.Raw.value?, Json.Raw.fieldValues?,
      Json.unquote?_of_isPlain, -String.reduceToList]
    rfl
  have hKv := hs.value? (x := x) Option.map_id'.symm
  refine ⟨⟨⟨_, [], ⟨hs, rfl⟩, rfl, rfl⟩, hx, by decide, hKx⟩, ?_, ?_⟩
  · rw [hv] at hKv
    exact (Ty.decode_eq_ok_iff hKx).2 ⟨_, hKv, by decide, by decide, _, _,
      ⟨rfl, _, rfl, .inl rfl⟩, rfl, rfl, _, _, ⟨rfl, _, rfl, .inr ⟨2, rfl, rfl⟩⟩, rfl, rfl⟩
  · intro t h
    obtain ⟨j, hj, -, htag, -⟩ := (Ty.decode_eq_ok_iff hx).1 h
    cases hv.symm.trans hj
    obtain ⟨_, htag⟩ := htag _ rfl
    cases htag

end Wire

end NativeTypes
