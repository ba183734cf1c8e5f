import NativeTypes.Proofs.Frames
import NativeTypes.Proofs.Positions
import NativeTypes.Proofs.Wire.RoundTrip

/-! # Documents with another name

A document holds names in three roles (`Wire.NameRole`): bare names of types, names of the backings
of enumerations, and the tags of nodes. `Wire.Renamed k u t j` says that `j` is what is written of
the type `t`, except that one name in the role `k` is replaced by `u`; it may stand anywhere in the
type (`Renamed.of_reaches`).

Where `u` is not known in that role, the document is not decoded, and the failure is the one that
the name alone leads to, however deep it lies (`Renamed.decodeTy_eq_error`): what is written before
it is decoded, and no part on the way replaces the failure by one of its own
(`Ty.Frame.decodeTy_toJson_eq_error`). -/

namespace NativeTypes

open Json (Mismatch)

/-! ### Documents with a hole -/

namespace Ty

/-- The document of a member, with that of its type. -/
def memberToJson (n : String) (j : Json) (o r : Bool) : Json :=
  .object [("name", .string n), ("type", j), ("optional", .boolean o), ("readonly", .boolean r)]

/-- The document of a type with a hole, with a value in the hole. -/
def Frame.toJson : Frame → Json → Json
  | array r, j => Wire.Tag.array.node [.boolean r, j]
  | operator o, j => o.tag.node [j]
  | withDefault v, j => Wire.Tag.withDefault.node [j, .string v]
  | result ts, j => Wire.Tag.function.node [j, .array (listToJson ts)]
  | argument t left right, j =>
    Wire.Tag.function.node [t.toJson, .array (listToJson left ++ j :: listToJson right)]
  | mixin left right ms f, j =>
    Wire.Tag.objectLiteral.node [.array (listToJson left ++ j :: listToJson right),
      .array (membersToJson ms), .boolean f]
  | member ts left right n o r f, j =>
    Wire.Tag.objectLiteral.node [.array (listToJson ts),
      .array (membersToJson left ++ memberToJson n j o r :: membersToJson right), .boolean f]
  | alternative left right, j =>
    Wire.Tag.union.node [.array (listToJson left ++ j :: listToJson right)]
  | event e, j => e.tag.node [j]

theorem listToJson_insert (left right : List Ty) (t : Ty) :
    listToJson (left ++ t :: right) = listToJson left ++ t.toJson :: listToJson right := by
  induction left with
  | nil => rfl
  | cons u left ih => rw [List.cons_append, listToJson, ih]; rfl

theorem membersToJson_insert (left right : List (Member Ty)) (n : String) (t : Ty) (o r : Bool) :
    membersToJson (left ++ ⟨n, t, o, r⟩ :: right) =
      membersToJson left ++ memberToJson n t.toJson o r :: membersToJson right := by
  induction left with
  | nil => rfl
  | cons m left ih => rw [List.cons_append, membersToJson, ih]; rfl

/-- **The document of a type with a hole** has in its hole the document of what is there. -/
theorem Frame.toJson_fill (F : Frame) (t : Ty) : (F.fill t).toJson = F.toJson t.toJson := by
  cases F with
  | array | withDefault | result => rfl
  | operator o => cases o <;> rfl
  | event e => cases e <;> rfl
  | argument | mixin | alternative =>
    rw [fill, Ty.toJson, listToJson_insert, Frame.toJson]
  | member => rw [fill, Ty.toJson, membersToJson_insert, Frame.toJson]

/-- **A part that a segment leads to leaves a hole.** -/
theorem Leads.exists_fill {t s : Ty} {g : Segment} (h : t.Leads g s) :
    ∃ F : Frame, t = F.fill s := by
  cases h with
  | array r => exact ⟨.array r, rfl⟩
  | operator o => exact ⟨.operator o, rfl⟩
  | withDefault _ v => exact ⟨.withDefault v, rfl⟩
  | event e => exact ⟨.event e, rfl⟩
  | result _ ts => exact ⟨.result ts, rfl⟩
  | argument h =>
    obtain ⟨left, right, rfl⟩ := List.append_of_mem (List.mem_of_getElem? h)
    exact ⟨.argument _ left right, rfl⟩
  | mixin h =>
    obtain ⟨left, right, rfl⟩ := List.append_of_mem (List.mem_of_getElem? h)
    exact ⟨.mixin left right _ _, rfl⟩
  | member h =>
    obtain ⟨left, right, rfl⟩ := List.append_of_mem h
    exact ⟨.member _ left right _ _ _ _, rfl⟩
  | alternative h =>
    obtain ⟨left, right, rfl⟩ := List.append_of_mem (List.mem_of_getElem? h)
    exact ⟨.alternative left right, rfl⟩

end Ty

namespace Wire

/-! ### Failures inside nodes -/

theorem decodeTy_toJson (t : Ty) : decodeTy t.toJson = .ok t :=
  (decodeTy_eq_ok_iff t).2 ((form_iff t).1 (form_toJson t)).1

theorem decodeTys_toJson (ts : List Ty) : decodeTys (Ty.listToJson ts) = .ok ts :=
  (decodeTys_eq_ok_iff ts).2 ((listForm_iff ts).1 (listForm_toJson ts)).1

theorem decodeTys_eq_error {left : List Ty} {j : Json} {js : List Json} {m : Mismatch}
    (h : decodeTy j = .error m) : decodeTys (Ty.listToJson left ++ j :: js) = .error m := by
  induction left with
  | nil =>
    rw [Ty.listToJson, List.nil_append, decodeTys, h]
    rfl
  | cons t left ih =>
    rw [Ty.listToJson, List.cons_append, decodeTys, decodeTy_toJson, ih]
    rfl

theorem decodeMember_toJson (n : String) (t : Ty) (o r : Bool) :
    decodeMember (Ty.memberToJson n t.toJson o r) = .ok ⟨n, t, o, r⟩ :=
  decodeMember_of_fields rfl rfl (.inl rfl) (.inl rfl) (decodeTy_toJson t)

theorem decodeMember_eq_error {n : String} {j : Json} {o r : Bool} {m : Mismatch}
    (h : decodeTy j = .error m) : decodeMember (Ty.memberToJson n j o r) = .error m := by
  have hn : memberStep {} ("name", .string n) = .ok { name := some n } := rfl
  have hj : memberStep { name := some n } ("type", j) = .error m := by
    show (decodeTy j).map _ = _
    rw [h]
    rfl
  rw [Ty.memberToJson, decodeMember, decodeMemberFields_eq_foldlM, List.foldlM_cons, hn]
  show (memberStep _ _ >>= _) >>= _ = _
  rw [hj]
  rfl

theorem decodeMemberItems_eq_error {left : List (Member Ty)} {i : Json} {js : List Json}
    {m : Mismatch} (h : decodeMember i = .error m) :
    decodeMemberItems (Ty.membersToJson left ++ i :: js) = .error m := by
  induction left with
  | nil =>
    rw [Ty.membersToJson, List.nil_append, decodeMemberItems, h]
    rfl
  | cons x left ih =>
    obtain ⟨n, t, o, r⟩ := x
    have hx := decodeMember_toJson n t o r
    rw [Ty.memberToJson] at hx
    rw [Ty.membersToJson, List.cons_append, decodeMemberItems, hx, ih]
    rfl

/-- A node is not decoded if, after fields that are, there is one that is not. -/
theorem decodeTy_node_eq_error {tag : Tag} {vs : List Json} (bs : List (String × Json))
    {as : List (String × Json)} {s : Slots} {k : String} {f : Field} {v : Json} {m : Mismatch}
    (hvs : (tag.fields.map Field.key).zip vs = bs ++ (k, v) :: as)
    (hb : bs.foldlM (fieldStep tag) {} = .ok s) (hf : tag.field? k = some f)
    (hs : s.has f = false) (hv : s.put f v = .error m) : decodeTy (tag.node vs) = .error m := by
  have hstep : fieldStep tag s (k, v) = .error m := by
    simp only [fieldStep, hf, hs, hv, Bool.false_eq_true, if_false]
  have hfs : decodeFields tag {} ((tagKey, .string tag.name) :: (bs ++ (k, v) :: as)) =
      .error m := by
    rw [decodeFields_eq_foldlM, List.foldlM_cons, fieldStep_tagKey]
    show (bs ++ (k, v) :: as).foldlM (fieldStep tag) {} = _
    rw [List.foldlM_append, hb]
    show fieldStep tag s (k, v) >>= _ = _
    rw [hstep]
    rfl
  rw [Tag.node, decodeTy_object, tagOf_of_text (isNode_node tag vs).2, tag.ofName_name, hvs]
  show draftOf tag _ >>= _ = _
  rw [draftOf]
  show (decodeFields tag {} ((tagKey, .string tag.name) :: (bs ++ (k, v) :: as)) >>= _) >>= _ = _
  rw [hfs]
  rfl

end Wire

namespace Ty

/-- **A part that is not decoded makes the type not decoded**, for the same reason. -/
theorem Frame.decodeTy_toJson_eq_error (F : Frame) {j : Json} {m : Mismatch}
    (h : Wire.decodeTy j = .error m) : Wire.decodeTy (F.toJson j) = .error m := by
  have element : ∀ {s : Wire.Slots} {f : Wire.Field}, f = .element ∨ f = .returnType →
      s.put f j = .error m := by
    rintro s f (rfl | rfl) <;> simp [Wire.Slots.put, h, Except.map]
  have list : ∀ {s : Wire.Slots} {f : Wire.Field} {left right : List Ty},
      f = .argumentTypes ∨ f = .mixins ∨ f = .elements →
      s.put f (.array (listToJson left ++ j :: listToJson right)) = .error m := by
    rintro s f left right (rfl | rfl | rfl) <;>
      simp [Wire.Slots.put, Wire.decodeList, Wire.decodeTys_eq_error h, Except.map]
  cases F with
  | array r =>
    exact Wire.decodeTy_node_eq_error [("readonly", .boolean r)] rfl rfl rfl rfl
      (element (.inl rfl))
  | operator o =>
    cases o <;> exact Wire.decodeTy_node_eq_error [] rfl rfl rfl rfl (element (.inl rfl))
  | event e =>
    cases e <;> exact Wire.decodeTy_node_eq_error [] rfl rfl rfl rfl (element (.inl rfl))
  | withDefault v =>
    exact Wire.decodeTy_node_eq_error [] rfl rfl rfl rfl (element (.inl rfl))
  | result ts =>
    exact Wire.decodeTy_node_eq_error [] rfl rfl rfl rfl (element (.inr rfl))
  | argument t left right =>
    have hb : [("returnType", t.toJson)].foldlM (Wire.fieldStep .function) {} =
        .ok { returnType := some t } := by
      show (Wire.decodeTy t.toJson).map _ >>= _ = _
      rw [Wire.decodeTy_toJson]
      rfl
    exact Wire.decodeTy_node_eq_error _ rfl hb rfl rfl (list (.inl rfl))
  | mixin left right ms f =>
    exact Wire.decodeTy_node_eq_error [] rfl rfl rfl rfl (list (.inr (.inl rfl)))
  | member ts left right n o r f =>
    have hb : [("mixins", .array (listToJson ts))].foldlM (Wire.fieldStep .objectLiteral) {} =
        .ok { mixins := some ts } := by
      show (Wire.decodeTys (listToJson ts)).map _ >>= _ = _
      rw [Wire.decodeTys_toJson]
      rfl
    refine Wire.decodeTy_node_eq_error _ rfl hb (f := .members) rfl rfl ?_
    show (Wire.decodeMemberItems _).map _ = _
    rw [Wire.decodeMemberItems_eq_error (Wire.decodeMember_eq_error h)]
    rfl
  | alternative left right =>
    exact Wire.decodeTy_node_eq_error [] rfl rfl rfl rfl (list (.inr (.inr rfl)))

theorem depthOfItems_insert (left right : List Json) (j : Json) :
    Json.depthOfItems (left ++ j :: right) =
      max j.depth (max (Json.depthOfItems left) (Json.depthOfItems right)) := by
  induction left with
  | nil => simp [Json.depthOfItems]
  | cons i left ih =>
    rw [List.cons_append, Json.depthOfItems, Json.depthOfItems, ih]
    omega

/-- How deep the document nests depends on what is in the hole only by its depth. -/
theorem Frame.depth_toJson_congr (F : Frame) {i j : Json} (h : i.depth = j.depth) :
    (F.toJson i).depth = (F.toJson j).depth := by
  have member : ∀ n o r, (memberToJson n i o r).depth = (memberToJson n j o r).depth := by
    intro n o r
    simp [memberToJson, Json.depth, Json.depthOfFields, h]
  cases F with
  | operator o | event o =>
    cases o <;>
      simp [Frame.toJson, Operator.tag, EventPhase.tag, Wire.Tag.node, Wire.Tag.fields, Json.depth,
        Json.depthOfFields, h]
  | _ =>
    simp [Frame.toJson, Wire.Tag.node, Wire.Tag.fields, Json.depth, Json.depthOfFields,
      depthOfItems_insert, h, member]

theorem noNumberItems_insert {left right : List Json} {j : Json} (hl : Json.NoNumberItems left)
    (h : j.NoNumber) (hr : Json.NoNumberItems right) :
    Json.NoNumberItems (left ++ j :: right) := by
  induction left with
  | nil => exact ⟨h, hr⟩
  | cons i left ih => exact ⟨hl.1, ih hl.2⟩

open Wire (noNumber_node noNumber_toJson noNumberItems_toJson noNumberItems_membersToJson) in
theorem Frame.noNumber_toJson (F : Frame) {j : Json} (h : j.NoNumber) : (F.toJson j).NoNumber := by
  have list : ∀ left right : List Ty,
      Json.NoNumberItems (listToJson left ++ j :: listToJson right) := fun left right =>
    noNumberItems_insert (noNumberItems_toJson left) h (noNumberItems_toJson right)
  cases F with
  | array => exact noNumber_node ⟨trivial, h, trivial⟩
  | operator | event => exact noNumber_node ⟨h, trivial⟩
  | withDefault => exact noNumber_node ⟨h, trivial, trivial⟩
  | result ts => exact noNumber_node ⟨h, noNumberItems_toJson ts, trivial⟩
  | argument t left right =>
    exact noNumber_node ⟨Wire.noNumber_toJson t, list left right, trivial⟩
  | mixin left right ms =>
    exact noNumber_node ⟨list left right, noNumberItems_membersToJson ms, trivial, trivial⟩
  | member ts left right n o r =>
    have hm : (memberToJson n j o r).NoNumber := ⟨trivial, h, trivial, trivial, trivial⟩
    exact noNumber_node ⟨noNumberItems_toJson ts, noNumberItems_insert
      (noNumberItems_membersToJson left) hm (noNumberItems_membersToJson right), trivial, trivial⟩
  | alternative left right => exact noNumber_node ⟨list left right, trivial⟩

theorem Frame.exists_node (F : Frame) (j : Json) :
    ∃ (tag : Wire.Tag) (vs : List Json), F.toJson j = tag.node vs := by
  cases F <;> exact ⟨_, _, rfl⟩

end Ty

namespace Wire

/-! ### Names that are not known -/

/-- What a name in a document is the name of. -/
inductive NameRole where
  | type
  | backing
  | tag
deriving DecidableEq

namespace NameRole

/-- The names that are known in a role. -/
def IsKnown : NameRole → String → Prop
  | type, u => (∃ p : Primitive, u = p.name) ∨ ∃ p : Predefined, u = p.name
  | backing, u => ∃ p : Primitive, u = p.name
  | tag, u => ∃ t : Tag, u = t.name

/-- The mismatch of a name that is not known. -/
def unknown : NameRole → String → Mismatch
  | type, u => .unknownType u
  | backing, u => .unknownBacking u
  | tag, u => .unknownVariant u (Tag.all.map Tag.name)

end NameRole

theorem resolve_named_eq_error {u : String} (hu : ¬ NameRole.type.IsKnown u) :
    (Draft.named u).resolve = .error (.unknownType u) := by
  cases h : (Draft.named u).resolve with
  | ok t =>
    rcases resolve_named_eq_ok_iff.1 h with ⟨p, -, hp⟩ | ⟨p, -, hp⟩
    · exact absurd (.inl ⟨p, hp⟩) hu
    · exact absurd (.inr ⟨p, hp⟩) hu
  | error m =>
    simp only [Draft.resolve] at h
    split at h
    · cases h
    · split at h
      · cases h
      · exact h.symm

theorem resolve_enumeration_eq_error {u : String} (hu : ¬ NameRole.backing.IsKnown u) :
    (Draft.enumeration u).resolve = .error (.unknownBacking u) := by
  cases h : (Draft.enumeration u).resolve with
  | ok t =>
    obtain ⟨p, -, hp⟩ := resolve_enumeration_eq_ok_iff.1 h
    exact absurd ⟨p, hp⟩ hu
  | error m =>
    simp only [Draft.resolve] at h
    split at h
    · cases h
    · exact h.symm

theorem ofName_eq_error {u : String} (hu : ¬ NameRole.tag.IsKnown u) :
    Tag.ofName u = .error (.unknownVariant u (Tag.all.map Tag.name)) := by
  cases h : Tag.ofName u with
  | ok t => exact absurd ⟨t, (Tag.name_of_ofName h).symm⟩ hu
  | error m =>
    rw [Tag.ofName] at h
    split at h
    · cases h
    · exact h.symm

/-! ### Renamed documents -/

/-- **What is written of a type, except that one name in some role is replaced by `u`.** -/
inductive Renamed (u : String) : NameRole → Ty → Json → Prop
  | primitive (p : Primitive) : Renamed u .type (.primitive p) (.string u)
  | predefined (p : Predefined) : Renamed u .type (.predefined p) (.string u)
  | backing (p : Primitive) :
      Renamed u .backing (.enumeration p) (Tag.enumeration.node [.string u])
  | tag {t : Ty} {tag : Tag} {vs : List Json} (h : t.toJson = tag.node vs) :
      Renamed u .tag t (.object ((tagKey, .string u) :: (tag.fields.map Field.key).zip vs))
  | inside {k : NameRole} {t : Ty} {j : Json} (F : Ty.Frame) (h : Renamed u k t j) :
      Renamed u k (F.fill t) (F.toJson j)

/-- A bare name, or an object with its tag first. -/
def TagIsFirst (j : Json) : Prop :=
  (∃ x, j = .string x) ∨
    ∃ x fs, j = .object ((tagKey, .string x) :: fs) ∧ LacksField fs tagKey

namespace Renamed

variable {u : String} {k : NameRole} {t s : Ty} {j : Json}

/-- **A name may be replaced wherever it stands**: the document of a type has that of a part inside,
and there the renamed one may stand as well. -/
theorem of_reaches {p : Path} (h : Renamed u k s j) (hp : t.Reaches p s) :
    ∃ Fs : List Ty.Frame, t.toJson = Fs.foldr Ty.Frame.toJson s.toJson ∧
      Renamed u k t (Fs.foldr Ty.Frame.toJson j) := by
  induction hp with
  | nil => exact ⟨[], rfl, h⟩
  | cons hl _ ih =>
    obtain ⟨Fs, hs, hj⟩ := ih h
    obtain ⟨F, rfl⟩ := hl.exists_fill
    exact ⟨F :: Fs, by rw [F.toJson_fill, hs, List.foldr_cons], .inside F hj⟩

/-- **The failure of an unknown name comes up unchanged from any depth.** -/
theorem decodeTy_eq_error (h : Renamed u k t j) (hu : ¬ k.IsKnown u) :
    decodeTy j = .error (k.unknown u) := by
  induction h with
  | primitive | predefined => rw [decodeTy, resolve_named_eq_error hu]; rfl
  | backing =>
    show (Draft.enumeration u).resolve = _
    exact resolve_enumeration_eq_error hu
  | @tag t tag vs =>
    have hl := (hasField_cons_self.1 (isNode_node tag vs).2).2
    rw [decodeTy_object, tagOf_of_text (hasField_cons_self.2 ⟨rfl, hl⟩), ofName_eq_error hu]
    rfl
  | inside F _ ih => exact F.decodeTy_toJson_eq_error (ih hu)

/-- A renamed document nests as deep as the document. -/
theorem depth_eq (h : Renamed u k t j) : j.depth = t.toJson.depth := by
  induction h with
  | primitive | predefined => rfl
  | backing => rfl
  | tag h => rw [h]; simp [Tag.node, Json.depth, Json.depthOfFields]
  | inside F _ ih => rw [F.toJson_fill, F.depth_toJson_congr ih]

theorem noNumber (h : Renamed u k t j) : j.NoNumber := by
  induction h with
  | primitive | predefined => trivial
  | backing => exact noNumber_node ⟨trivial, trivial⟩
  | @tag t _ _ h =>
    have ht := noNumber_toJson t
    rw [h] at ht
    exact ht
  | inside F _ ih => exact F.noNumber_toJson ih

theorem tagIsFirst (h : Renamed u k t j) : TagIsFirst j := by
  have lacks : ∀ (tag : Tag) (vs : List Json),
      LacksField ((tag.fields.map Field.key).zip vs) tagKey := fun tag vs =>
    (hasField_cons_self.1 (isNode_node tag vs).2).2
  cases h with
  | primitive | predefined => exact .inl ⟨u, rfl⟩
  | backing => exact .inr ⟨_, _, rfl, lacks .enumeration [.string u]⟩
  | @tag _ tag vs => exact .inr ⟨_, _, rfl, lacks tag vs⟩
  | @inside _ _ i F =>
    obtain ⟨tag, vs, hF⟩ := F.exists_node i
    exact .inr ⟨_, _, hF, lacks tag vs⟩

end Renamed

end Wire

end NativeTypes
