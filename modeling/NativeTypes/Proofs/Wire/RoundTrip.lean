import NativeTypes.Proofs.Wire.Documents
import NativeTypes.Wire.Encode

/-! # Writing and decoding

What is written of a type is one of its forms (`form_toJson`), and it holds no number
(`noNumber_toJson`), so that its text is a document of the type. Whether it is decoded is then a
matter of depth alone: up to the limit it is, and beyond it nothing is
(`Ty.decode_wireText`). -/

namespace NativeTypes

namespace Wire

/-! ### What is written is a form -/

theorem Field.key_ne_type (f : Field) : (f.key == "type") = false := by
  cases f <;> decide

theorem isNode_node (tag : Tag) (vs : List Json) :
    IsNode tag.name (("type", .string tag.name) :: (tag.fields.map Field.key).zip vs)
      (tag.node vs) := by
  refine ⟨rfl, hasField_cons_self.2 ⟨rfl, List.filter_eq_nil_iff.2 ?_⟩⟩
  rintro ⟨k, v⟩ hp
  obtain ⟨f, -, rfl⟩ := List.mem_map.1 (List.of_mem_zip hp).1
  rw [f.key_ne_type]
  exact Bool.false_ne_true

mutual

/-- **What is written of a type is one of its forms.** -/
theorem form_toJson : ∀ t : Ty, Form t t.toJson
  | .primitive _ => rfl
  | .predefined _ => rfl
  | .reference _ => ⟨_, isNode_node .reference _, rfl⟩
  | .array _ t => ⟨_, t.toJson, isNode_node .array _, rfl, rfl, form_toJson t⟩
  | .operator .promise t => ⟨_, t.toJson, isNode_node .promise _, rfl, form_toJson t⟩
  | .operator .readonly t => ⟨_, t.toJson, isNode_node .readonly _, rfl, form_toJson t⟩
  | .operator .optional t => ⟨_, t.toJson, isNode_node .optional _, rfl, form_toJson t⟩
  | .withDefault t _ => ⟨_, t.toJson, isNode_node .withDefault _, rfl, rfl, form_toJson t⟩
  | .function t ts =>
    ⟨_, t.toJson, Ty.listToJson ts, isNode_node .function _, rfl, rfl, form_toJson t,
      listForm_toJson ts⟩
  | .objectLiteral ts ms _ =>
    ⟨_, Ty.listToJson ts, Ty.membersToJson ms, isNode_node .objectLiteral _, rfl, rfl, rfl,
      listForm_toJson ts, membersForm_toJson ms⟩
  | .union ts => ⟨_, Ty.listToJson ts, isNode_node .union _, rfl, listForm_toJson ts⟩
  | .enumeration _ => ⟨_, isNode_node .enumeration _, rfl⟩
  | .event .bubbling t => ⟨_, t.toJson, isNode_node .bubblingEvent _, rfl, form_toJson t⟩
  | .event .direct t => ⟨_, t.toJson, isNode_node .directEvent _, rfl, form_toJson t⟩

/-- The items of a list. -/
theorem listForm_toJson : ∀ ts : List Ty, ListForm ts (Ty.listToJson ts)
  | [] => rfl
  | t :: ts => ⟨t.toJson, Ty.listToJson ts, rfl, form_toJson t, listForm_toJson ts⟩

/-- The members of a list. -/
theorem membersForm_toJson : ∀ ms : List (Member Ty), MembersForm ms (Ty.membersToJson ms)
  | [] => rfl
  | ⟨_, t, _, _⟩ :: ms =>
    ⟨_, t.toJson, Ty.membersToJson ms, rfl, rfl, rfl, .inl rfl, .inl rfl, form_toJson t,
      membersForm_toJson ms⟩

end

/-! ### What is written holds no number -/

theorem noNumber_node {tag : Tag} {vs : List Json} (h : Json.NoNumberItems vs) :
    Json.NoNumber (tag.node vs) := by
  have zip : ∀ {ks : List String} {vs : List Json}, Json.NoNumberItems vs →
      Json.NoNumberFields (ks.zip vs) := by
    intro ks
    induction ks with
    | nil => exact fun _ => trivial
    | cons k ks ih =>
      rintro (_ | ⟨v, vs⟩) hv
      · trivial
      · exact ⟨hv.1, ih hv.2⟩
  exact ⟨trivial, zip h⟩

mutual

/-- What is written of a type holds no number. -/
theorem noNumber_toJson : ∀ t : Ty, t.toJson.NoNumber
  | .primitive _ | .predefined _ => trivial
  | .reference _ | .enumeration _ => noNumber_node ⟨trivial, trivial⟩
  | .array _ t => noNumber_node ⟨trivial, noNumber_toJson t, trivial⟩
  | .operator .promise t | .operator .readonly t | .operator .optional t =>
    noNumber_node ⟨noNumber_toJson t, trivial⟩
  | .withDefault t _ => noNumber_node ⟨noNumber_toJson t, trivial, trivial⟩
  | .function t ts => noNumber_node ⟨noNumber_toJson t, noNumberItems_toJson ts, trivial⟩
  | .objectLiteral ts ms _ =>
    noNumber_node ⟨noNumberItems_toJson ts, noNumberItems_membersToJson ms, trivial, trivial⟩
  | .union ts => noNumber_node ⟨noNumberItems_toJson ts, trivial⟩
  | .event .bubbling t | .event .direct t => noNumber_node ⟨noNumber_toJson t, trivial⟩

theorem noNumberItems_toJson : ∀ ts : List Ty, Json.NoNumberItems (Ty.listToJson ts)
  | [] => trivial
  | t :: ts => ⟨noNumber_toJson t, noNumberItems_toJson ts⟩

theorem noNumberItems_membersToJson :
    ∀ ms : List (Member Ty), Json.NoNumberItems (Ty.membersToJson ms)
  | [] => trivial
  | ⟨_, t, _, _⟩ :: ms =>
    ⟨⟨trivial, noNumber_toJson t, trivial, trivial, trivial⟩, noNumberItems_membersToJson ms⟩

end

/-- The text of a type is a text of what is written of it. -/
theorem isText_wireText (t : Ty) : Json.IsText t.toJson t.wireText :=
  Json.isText_text .compact (noNumber_toJson t)

end Wire

/-! ### The round trip -/

/-- **What is written of a type is decoded to the type, exactly up to the limit of depth**: a text
that nests deeper is not decoded at all. -/
theorem Ty.decode_wireText (t : Ty) :
    Json.IsText t.toJson t.wireText ∧
      if t.toJson.depth ≤ 127 then Ty.decode t.wireText = .ok t
      else ∃ e, Ty.decode t.wireText = .error e := by
  have hs := Wire.isText_wireText t
  refine ⟨hs, ?_⟩
  split
  · rename_i h
    exact Json.decode_eq_ok_iff.2 (Wire.tyReader_run_of_isText (Wire.form_toJson t) hs h)
  · rename_i h
    cases hd : Ty.decode t.wireText with
    | error e => exact ⟨e, rfl⟩
    | ok u => exact absurd (hs.depth_le hd) h

end NativeTypes
