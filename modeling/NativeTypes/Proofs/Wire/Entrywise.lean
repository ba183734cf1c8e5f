import NativeTypes.Proofs.Json.Raw.Objects
import NativeTypes.Proofs.Json.Raw.Texts
import NativeTypes.Proofs.Wire.Containers

/-! # Containers are decoded entry by entry

The text of a container is put together from names and texts (`Container.document`). It is decoded
exactly if each of the texts is decoded alone, also where a later entry has the same name, and then
to the container in which the types of the texts are defined one after the other
(`Container.decode_document`). -/

namespace NativeTypes

open Json (Raw Entry unquote?)

namespace Wire

/-- The limit of the depth does not matter to a text that nests less deep. -/
theorem spellsType_iff_of_depth_le {d e : Nat} {x : Raw} {t : Ty} (hd : x.depth ≤ d)
    (he : x.depth ≤ e) : SpellsType d x t ↔ SpellsType e x t := by
  have hle : ∀ {k : Nat} {j : Json}, x.depth ≤ k → x.value? = some j → j.depth ≤ k :=
    fun hk hj => Raw.depth_of_value? hj ▸ hk
  exact exists_congr fun j => and_congr_right fun hj =>
    and_congr_left' ⟨fun _ => hle he hj, fun _ => hle hd hj⟩

/-- An object whose only field is `types` is a container of the definitions in it. -/
theorem spellsContainer_iff {d : Nat} {k : List Char} (hk : unquote? k = some "types")
    {fs : List (List Char × Raw)} {c : Container} :
    SpellsContainer d (.object [(k, .object fs)]) c ↔
      ∃ es, List.Forall₂ (SpellsDefinition d) fs es ∧ c = Container.ofList es := by
  constructor
  · rintro ⟨y, es, ⟨gs, rfl, hes⟩, rfl, h | ⟨_, k', h, -, hf⟩⟩
    · cases h
    · cases h
      simp only [List.filter_cons, hk, beq_self_eq_true, if_true, List.filter_nil] at hf
      cases hf
      exact ⟨es, hes, rfl⟩
  · rintro ⟨es, hes, rfl⟩
    exact ⟨.object fs, es, ⟨fs, rfl, hes⟩, rfl,
      .inr ⟨_, k, rfl, by simp [hk], by simp [hk]⟩⟩

end Wire

/-- A definition is decoded from an entry alone. -/
def Defines (e : Entry) (d : String × Ty) : Prop :=
  d.1 = e.name ∧ Ty.decode e.text = .ok d.2

/-- **A field of a container is decoded as its text alone.** -/
theorem spellsDefinition_iff {e : Entry} {f : List Char × Raw} (he : e.Describes f)
    (hd : f.2.depth ≤ 125) {d : String × Ty} : Wire.SpellsDefinition 125 f d ↔ Defines e d := by
  rw [Wire.SpellsDefinition, he.2.1, Option.some_inj, eq_comm,
    Wire.spellsType_iff_of_depth_le hd (Nat.le_trans hd (by omega : 125 ≤ 127)),
    ← Ty.decode_eq_ok_iff he.2.2, Defines]

theorem forall₂_spellsDefinition_iff {l : List Entry} {fs : List (List Char × Raw)}
    (h : List.Forall₂ (fun e f => e.Describes f ∧ f.2.depth ≤ 125) l fs)
    {es : List (String × Ty)} :
    List.Forall₂ (Wire.SpellsDefinition 125) fs es ↔ List.Forall₂ Defines l es := by
  induction h generalizing es with
  | nil => simp
  | @cons e f l fs he _ ih =>
    simp only [List.forall₂_cons_left_iff, ih, spellsDefinition_iff he.1 he.2]

/-- The types of texts can be defined if each text is decoded. -/
theorem exists_forall₂_defines_iff {l : List Entry} :
    (∃ es, List.Forall₂ Defines l es) ↔ ∀ e ∈ l, ∃ t, Ty.decode e.text = .ok t := by
  induction l with
  | nil => simp
  | cons e l ih =>
    rw [List.forall_mem_cons, ← ih]
    constructor
    · rintro ⟨_, h⟩
      obtain ⟨d, es, hd, hes, rfl⟩ := List.forall₂_cons_left_iff.1 h
      exact ⟨⟨d.2, hd.2⟩, es, hes⟩
    · rintro ⟨⟨t, ht⟩, es, hes⟩
      exact ⟨(e.name, t) :: es, .cons ⟨rfl, ht⟩ hes⟩

namespace Container

/-- The text of a container that is put together from entries. -/
def document (l : List Entry) : String :=
  Json.objectText [.ofName "types" (Json.objectText l)]

example : document [.ofName "a" "null", .ofName "b\"" "\"void\""] =
    "\x7b\"types\":\x7b\"a\":null,\"b\\\"\":\"void\"\x7d\x7d" := by
  decide +kernel

theorem isText_document {l : List Entry} {fs : List (List Char × Raw)}
    (h : List.Forall₂ Entry.Describes l fs) :
    ∃ k, unquote? k = some "types" ∧ (Raw.object [(k, .object fs)]).IsText (document l) := by
  have hinner := Json.isText_objectText h
  obtain ⟨⟨k, x⟩, ⟨hk, hn, -⟩, -⟩ := (Entry.isValid_ofName (n := "types") hinner
    (Nat.le_refl _)).exists_field
  exact ⟨k, hn, Json.isText_objectText (.cons ⟨hk, hn, hinner⟩ .nil)⟩

/-- **A container is decoded entry by entry, and all of it or nothing.** -/
theorem decode_document {l : List Entry} (h : ∀ e ∈ l, e.IsValid 125) :
    ((∃ c, Container.decode (document l) = .ok c) ↔ ∀ e ∈ l, ∃ t, Ty.decode e.text = .ok t) ∧
    ∀ c, Container.decode (document l) = .ok c ↔
      ∃ es, List.Forall₂ Defines l es ∧ c = es.foldl (fun c d => c.insert d.1 d.2) empty := by
  obtain ⟨fs, hfs⟩ := Entry.exists_fields h
  obtain ⟨k, hk, htext⟩ := isText_document (hfs.imp fun _ _ he => he.1)
  have hdecode : ∀ c, Container.decode (document l) = .ok c ↔
      ∃ es, List.Forall₂ Defines l es ∧ c = es.foldl (fun c d => c.insert d.1 d.2) empty := by
    intro c
    rw [decode_eq_ok_iff htext, Wire.spellsContainer_iff hk]
    simp only [forall₂_spellsDefinition_iff hfs]
    rfl
  refine ⟨?_, hdecode⟩
  rw [← exists_forall₂_defines_iff]
  constructor
  · rintro ⟨c, hc⟩
    obtain ⟨es, hes, -⟩ := (hdecode c).1 hc
    exact ⟨es, hes⟩
  · rintro ⟨es, hes⟩
    exact ⟨_, (hdecode _).2 ⟨es, hes, rfl⟩⟩

/-- A name is spelled with an escape, another one is defined twice. With an entry that is not
decoded the container is not decoded either, although the name of that entry is defined again. -/
theorem decode_document_redefined :
    let x : Raw := .object [("element".toList, .string "void".toList),
      ("type".toList, .string "promise".toList)]
    let l : List Entry := [.ofName "a \"b\"" (Raw.string "string".toList).text,
      ⟨"c", "\"\\u0063\"", x.text⟩, .ofName "a \"b\"" (Raw.string "RootTag".toList).text]
    let bad : Entry := .ofName "c" Raw.null.text
    (∀ e ∈ bad :: l, e.IsValid 125) ∧
      Container.decode (document l) = .ok (ofList [("a \"b\"", .predefined .rootTag),
        ("c", .operator .promise (.primitive .void))]) ∧
      ∀ c, Container.decode (document (bad :: l)) ≠ .ok c := by
  intro x l bad
  have hx : x.IsText x.text := Json.Raw.isText_text <| by
    simp (disch := decide) [x, Json.Raw.Valid, Json.Raw.ValidFields, Json.quotable_of_isPlain]
  have hstring : ∀ s : String, Json.isPlain s.toList = true →
      (Raw.string s.toList).IsText (Raw.string s.toList).text := fun s hs =>
    Json.Raw.isText_text (Json.quotable_of_isPlain hs)
  have hnull : Raw.null.IsText Raw.null.text := Json.Raw.isText_text trivial
  have hunit : Json.SpellsUnit 'c'.toNat ['0', '0', '6', '3', '"'] ['"'] :=
    ⟨'0', '0', '6', '3', rfl, ⟨by decide, .inl rfl⟩, ⟨by decide, .inl rfl⟩, ⟨by decide, .inl rfl⟩,
      ⟨by decide, .inl rfl⟩⟩
  have hkey : Json.SpellsString "c" "\"\\u0063\"".toList [] :=
    ⟨_, rfl, _, .unit hunit, rfl⟩
  have hl : ∀ e ∈ l, e.IsValid 125 := by
    simp only [l, List.forall_mem_cons]
    exact ⟨Entry.isValid_ofName (hstring _ (by decide)) (by decide),
      ⟨hkey, x, hx, by decide⟩,
      Entry.isValid_ofName (hstring _ (by decide)) (by decide), by simp⟩
  have hbad : ∀ e ∈ bad :: l, e.IsValid 125 :=
    List.forall_mem_cons.2 ⟨Entry.isValid_ofName hnull (by decide), hl⟩
  have hplain : ∀ {s : String} {t : Ty}, Json.isPlain s.toList = true →
      Wire.LooseForm t (.string s) → Ty.decode (Raw.string s.toList).text = .ok t := by
    intro s t hs ht
    refine (Ty.decode_eq_ok_iff (hstring s hs)).2
      ⟨.string s, ?_, Nat.zero_le _, by rintro fs ⟨⟩, ht⟩
    rw [Raw.value?, Json.unquote?_of_isPlain hs]
    rfl
  have hv : x.value? =
      some (.object [("element", .string "void"), ("type", .string "promise")]) := by
    simp (disch := decide) only [x, Json.Raw.value?, Json.Raw.fieldValues?,
      Json.unquote?_of_isPlain, -String.reduceToList]
    rfl
  have hpromise : Ty.decode x.text = .ok (.operator .promise (.primitive .void)) :=
    (Ty.decode_eq_ok_iff hx).2
      ⟨_, hv, by decide, by decide, _, _, ⟨rfl, _, rfl, .inl rfl⟩, rfl, rfl⟩
  refine ⟨hbad, ((decode_document hl).2 _).2 ⟨[("a \"b\"", .primitive .string),
    ("c", .operator .promise (.primitive .void)), ("a \"b\"", .predefined .rootTag)],
    .cons ⟨rfl, hplain (by decide) rfl⟩ (.cons ⟨rfl, hpromise⟩
      (.cons ⟨rfl, hplain (by decide) rfl⟩ .nil)), ?_⟩, fun c hc => ?_⟩
  · rfl
  · obtain ⟨t, ht⟩ := (decode_document hbad).1.1 ⟨c, hc⟩ bad List.mem_cons_self
    obtain ⟨j, hj, -, -, hform⟩ := (Ty.decode_eq_ok_iff hnull).1 ht
    cases hj
    cases (Wire.decodeTy_eq_ok_iff t).2 hform

end Container

end NativeTypes
