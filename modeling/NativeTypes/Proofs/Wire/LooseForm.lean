import NativeTypes.Proofs.Json.Values
import NativeTypes.Proofs.Wire.Collect
import NativeTypes.Proofs.Wire.Form

/-! # The values that are decoded

`LooseForm t j` spells out which values are decoded to the type `t`. They are the forms of `t`, and
besides these the values in which the tag of a node is the position of the tag in the fixed order,
or a member is the list of the values of its fields, of which the flags may be left out.

* `decodeTy_object_eq_ok_iff`: an object is decoded to a type if it has the tag of the type, and if
  each field of the tag occurs once and holds what the type has there (`Ty.slots`).
* `decodeTy_eq_ok_iff`: **the values that are decoded to a type are its loose forms.** -/

namespace NativeTypes

open Json (Mismatch)

/-! ### The node of a type -/

/-- The tag of a wrapper. -/
def Operator.tag : Operator → Wire.Tag
  | promise => .promise
  | readonly => .readonly
  | optional => .optional

/-- The tag of an event. -/
def EventPhase.tag : EventPhase → Wire.Tag
  | bubbling => .bubblingEvent
  | direct => .directEvent

namespace Ty

/-- The tag of the node of a type; a bare name has none. -/
def tag? : Ty → Option Wire.Tag
  | primitive _ | predefined _ => none
  | reference _ => some .reference
  | array .. => some .array
  | operator o _ => some o.tag
  | withDefault .. => some .withDefault
  | function .. => some .function
  | objectLiteral .. => some .objectLiteral
  | union _ => some .union
  | enumeration _ => some .enumeration
  | event e _ => some e.tag

/-- What the fields of the node of a type hold. -/
def slots : Ty → Wire.Slots
  | primitive _ | predefined _ => {}
  | reference n => { name := some n }
  | array r t => { readonly := some r, element := some t }
  | operator _ t | event _ t => { element := some t }
  | withDefault t v => { element := some t, defaultValue := some v }
  | function t ts => { returnType := some t, argumentTypes := some ts }
  | objectLiteral ts ms f =>
    { mixins := some ts, members := some ms, allMembersReadonly := some f }
  | union ts => { elements := some ts }
  | enumeration p => { backing := some p.name }

end Ty

namespace Wire

theorem resolve_named_eq_ok_iff {n : String} {t : Ty} : (Draft.named n).resolve = .ok t ↔
    (∃ p, t = .primitive p ∧ n = p.name) ∨ ∃ p, t = .predefined p ∧ n = p.name := by
  constructor
  · intro h
    simp only [Draft.resolve] at h
    split at h
    · rename_i p hp
      cases h
      exact .inl ⟨p, rfl, (Primitive.name_of_ofName? hp).symm⟩
    · split at h
      · rename_i p hp
        cases h
        exact .inr ⟨p, rfl, (Predefined.name_of_ofName? hp).symm⟩
      · cases h
  · rintro (⟨p, rfl, rfl⟩ | ⟨p, rfl, rfl⟩)
    · rw [Draft.resolve, Primitive.ofName?_name]
    · rw [Draft.resolve, p.primitive_ofName?_name, Predefined.ofName?_name]

theorem resolve_enumeration_eq_ok_iff {n : String} {t : Ty} :
    (Draft.enumeration n).resolve = .ok t ↔ ∃ p, t = .enumeration p ∧ n = p.name := by
  constructor
  · intro h
    simp only [Draft.resolve] at h
    split at h
    · rename_i p hp
      cases h
      exact ⟨p, rfl, (Primitive.name_of_ofName? hp).symm⟩
    · cases h
  · rintro ⟨p, rfl, rfl⟩
    rw [Draft.resolve, Primitive.ofName?_name]

/-- The tag of a type knows all slots of its node. -/
theorem slots_only {t : Ty} {tag : Tag} (h : t.tag? = some tag) :
    t.slots.only tag.fields = t.slots := by
  cases t with
  | operator o t | event o t =>
    cases o <;>
    · cases h
      rfl
  | _ =>
    cases h
    try rfl

theorem Slots.Fits.only {s : Slots} {f : Field} {v : Json} {F : List Field} (h : s.Fits f v)
    (hf : f ∈ F) : (s.only F).Fits f v := by
  cases f <;> simpa [Slots.Fits, Slots.only, hf] using h

/-- **A node is built from the slots of its type**, as far as its tag knows them. -/
theorem Tag.build_resolve_eq_ok_iff {tag : Tag} {s : Slots} {t : Ty} :
    (∃ d, tag.build s = .ok d ∧ d.resolve = .ok t) ↔
      t.tag? = some tag ∧ s.only tag.fields = t.slots := by
  constructor
  · rintro ⟨d, hb, hd⟩
    cases tag <;> simp only [build, bind_eq_ok_iff, need_eq_ok_iff, pure_eq_ok_iff] at hb
    case enumeration =>
      obtain ⟨n, hn, rfl⟩ := hb
      obtain ⟨p, rfl, rfl⟩ := resolve_enumeration_eq_ok_iff.1 hd
      simp [Ty.tag?, Ty.slots, Slots.only, fields, hn]
    case objectLiteral =>
      obtain ⟨ts, hts, ms, hms, f, hf, rfl⟩ := hb
      cases hd
      simp [Ty.tag?, Ty.slots, Slots.only, fields, hts, hms, hf]
    case array | withDefault | function =>
      obtain ⟨a, ha, b, hb, rfl⟩ := hb
      cases hd
      simp [Ty.tag?, Ty.slots, Slots.only, fields, ha, hb]
    case reference | promise | readonly | optional | union | bubblingEvent | directEvent =>
      obtain ⟨a, ha, rfl⟩ := hb
      cases hd
      simp [Ty.tag?, Ty.slots, Slots.only, fields, ha, Operator.tag, EventPhase.tag]
  · rintro ⟨ht, hs⟩
    rw [← build_only, hs]
    cases t with
    | operator o t | event o t =>
      cases o <;>
      · cases ht
        exact ⟨_, rfl, rfl⟩
    | enumeration p =>
      cases ht
      exact ⟨_, rfl, resolve_enumeration_eq_ok_iff.2 ⟨p, rfl, rfl⟩⟩
    | _ =>
      cases ht
      try exact ⟨_, rfl, rfl⟩

/-- The tag of a node inside another value: its text, or its position in the fixed order. -/
def SpellsTag (tag : Tag) (v : Json) : Prop :=
  v = .string tag.name ∨ ∃ i : Nat, v = .number (.integer i) ∧ Tag.all[i]? = some tag

theorem Tag.name_of_ofName {s : String} {tag : Tag} (h : ofName s = .ok tag) : tag.name = s := by
  simp only [ofName] at h
  split at h
  · rename_i t ht
    cases h
    simpa using List.find?_some ht
  · cases h

theorem decodeTag_eq_ok_iff {tag : Tag} {v : Json} : decodeTag v = .ok tag ↔ SpellsTag tag v := by
  constructor
  · intro h
    unfold decodeTag at h
    split at h
    · exact .inl (congrArg Json.string (Tag.name_of_ofName h).symm)
    · rename_i i
      refine .inr ⟨i, rfl, ?_⟩
      simp only [Tag.ofIndex] at h
      split at h
      · rename_i t ht
        cases h
        exact ht
      · cases h
    · cases h
  · rintro (rfl | ⟨i, rfl, hi⟩)
    · exact tag.ofName_name
    · simp [decodeTag, Tag.ofIndex, hi]

theorem tagOf_eq_ok_iff {tag : Tag} {fs : List (String × Json)} :
    tagOf fs = .ok tag ↔ ∃ v, HasField fs tagKey v ∧ SpellsTag tag v := by
  simp only [← decodeTag_eq_ok_iff, tagOf, HasField]
  constructor
  · intro h
    split at h
    · cases h
    · rename_i k v more hfs
      split at h
      · cases h
      · rename_i t ht
        have hk : k = tagKey := by
          have hm : (k, v) ∈ fs.filter (·.1 == tagKey) := hfs ▸ List.mem_cons_self
          simpa using (List.mem_filter.1 hm).2
        split at h
        · rename_i hmore
          cases h
          exact ⟨v, by rw [hfs, hk, List.isEmpty_iff.1 hmore], ht⟩
        · cases h
  · rintro ⟨v, hfs, hv⟩
    simp [hfs, hv]

/-- A node inside another value. -/
def IsLooseNode (tag : Tag) (fs : List (String × Json)) (j : Json) : Prop :=
  j = .object fs ∧ ∃ v, HasField fs "type" v ∧ SpellsTag tag v

theorem decodeTy_object (fs : List (String × Json)) : decodeTy (.object fs) =
    tagOf fs >>= fun tag => draftOf tag fs >>= Draft.resolve := by
  simp only [decodeTy, draftOf, bind_assoc]

/-- **An object is decoded to a type** if it has the tag of the type, and if each field of the tag
occurs once and holds what the type has there. -/
theorem decodeTy_object_eq_ok_iff {fs : List (String × Json)} {t : Ty} :
    decodeTy (.object fs) = .ok t ↔ ∃ tag, t.tag? = some tag ∧
      (∃ v, HasField fs "type" v ∧ SpellsTag tag v) ∧
      ∀ f ∈ tag.fields, ∃ v, HasField fs f.key v ∧ t.slots.Fits f v := by
  simp only [decodeTy_object, bind_eq_ok_iff, tagOf_eq_ok_iff, draftOf_eq_ok_iff]
  constructor
  · rintro ⟨tag, ht, d, ⟨s, hs, hb⟩, hd⟩
    obtain ⟨htag, hslots⟩ := Tag.build_resolve_eq_ok_iff.1 ⟨d, hb, hd⟩
    refine ⟨tag, htag, ht, fun f hf => ?_⟩
    obtain ⟨v, hv, hfit⟩ := hs f hf
    exact ⟨v, hv, hslots ▸ hfit.only hf⟩
  · rintro ⟨tag, htag, ht, hs⟩
    obtain ⟨d, hb, hd⟩ := Tag.build_resolve_eq_ok_iff.2 ⟨htag, slots_only htag⟩
    exact ⟨tag, ht, d, ⟨t.slots, hs, hb⟩, hd⟩

/-! ### Members -/

theorem decodeText_eq_ok_iff {v : Json} {x : String} : decodeText v = .ok x ↔ v = .string x := by
  cases v <;> simp [decodeText, wrongKind]

theorem decodeFlag_eq_ok_iff {v : Json} {b : Bool} : decodeFlag v = .ok b ↔ v = .boolean b := by
  cases v <;> simp [decodeFlag, wrongKind]

/-- A member whose type has the value `e`, inside another value: an object, or the list of the
values of its fields, of which the flags may be left out where they are false. -/
def IsLooseMember (n : String) (e : Json) (o r : Bool) (j : Json) : Prop :=
  (∃ fs, j = .object fs ∧ HasField fs "name" (.string n) ∧ HasField fs "type" e ∧
    HasFlag fs "optional" o ∧ HasFlag fs "readonly" r) ∨
  ∃ flags, j = .array (.string n :: e :: flags) ∧
    (flags = [] ∧ o = false ∧ r = false ∨ flags = [.boolean o] ∧ r = false ∨
      flags = [.boolean o, .boolean r])

/-- A slot of a flag that was filled, or is empty for false. -/
theorem hasFlag_of_slot {fs : List (String × Json)} {k : String} {x : Option Bool}
    (h : LacksField fs k ∧ x.isSome = false ∨
      ∃ v, HasField fs k v ∧ ∃ y, x = some y ∧ decodeFlag v = .ok y) :
    HasFlag fs k (x.getD false) := by
  rcases h with ⟨hl, hx⟩ | ⟨v, hv, y, rfl, hy⟩
  · rw [Option.isSome_eq_false_iff, Option.isNone_iff_eq_none] at hx
    exact .inr ⟨hl, by rw [hx]; rfl⟩
  · rw [decodeFlag_eq_ok_iff] at hy
    exact .inl (hy ▸ hv)

theorem MemberSlots.build_eq_ok_iff {missing : MemberField → Mismatch} {s : MemberSlots}
    {n : String} {t : Ty} {o r : Bool} : s.build missing = .ok ⟨n, t, o, r⟩ ↔
      s.name = some n ∧ s.type = some t ∧ s.optional.getD false = o ∧
        s.readonly.getD false = r := by
  unfold MemberSlots.build
  split <;> simp [*]

theorem decodeMember_object_eq_ok_iff {fs : List (String × Json)} {n : String} {t : Ty}
    {o r : Bool} : decodeMember (.object fs) = .ok ⟨n, t, o, r⟩ ↔
      ∃ e, HasField fs "name" (.string n) ∧ HasField fs "type" e ∧ HasFlag fs "optional" o ∧
        HasFlag fs "readonly" r ∧ decodeTy e = .ok t := by
  constructor
  · intro h
    rw [decodeMember] at h
    obtain ⟨s, hs, h⟩ := bind_eq_ok_iff.1 h
    rw [decodeMemberFields_eq_ok_iff] at hs
    obtain ⟨hname, htype, rfl, rfl⟩ := MemberSlots.build_eq_ok_iff.1 h
    obtain ⟨v, hv, _, hx, hn⟩ := (hs .name).resolve_left fun h0 => by
      simp [MemberSlots.has, hname] at h0
    obtain ⟨e, he, _, hy, hte⟩ := (hs .type).resolve_left fun h0 => by
      simp [MemberSlots.has, htype] at h0
    cases hname.symm.trans hx
    cases htype.symm.trans hy
    rw [decodeText_eq_ok_iff] at hn
    exact ⟨e, hn ▸ hv, he, hasFlag_of_slot (hs .optional), hasFlag_of_slot (hs .readonly), hte⟩
  · rintro ⟨e, hn, he, ho, hr, h⟩
    exact decodeMember_of_fields hn he ho hr h

theorem decodePositions_eq_ok_iff {js : List Json} {n : String} {t : Ty} {o r : Bool} :
    decodePositions js = .ok ⟨n, t, o, r⟩ ↔ ∃ e flags, js = .string n :: e :: flags ∧
      (flags = [] ∧ o = false ∧ r = false ∨ flags = [.boolean o] ∧ r = false ∨
        flags = [.boolean o, .boolean r]) ∧ decodeTy e = .ok t := by
  constructor
  · intro h
    match js, h with
    | [], h => cases h
    | [x], h =>
      obtain ⟨_, -, h⟩ := bind_eq_ok_iff.1 h
      cases h
    | [x, e], h =>
      simp only [decodePositions, bind_eq_ok_iff, decodeText_eq_ok_iff] at h
      obtain ⟨m, rfl, u, hu, h⟩ := h
      cases h
      exact ⟨e, [], rfl, .inl ⟨rfl, rfl, rfl⟩, hu⟩
    | [x, e, p], h =>
      simp only [decodePositions, bind_eq_ok_iff, decodeText_eq_ok_iff, decodeFlag_eq_ok_iff] at h
      obtain ⟨m, rfl, u, hu, p, rfl, h⟩ := h
      cases h
      exact ⟨e, _, rfl, .inr (.inl ⟨rfl, rfl⟩), hu⟩
    | x :: e :: p :: q :: more, h =>
      simp only [decodePositions, bind_eq_ok_iff, decodeText_eq_ok_iff, decodeFlag_eq_ok_iff] at h
      obtain ⟨m, rfl, u, hu, p, rfl, q, rfl, h⟩ := h
      split at h
      · rename_i hmore
        cases h
        rw [List.isEmpty_iff.1 hmore]
        exact ⟨e, _, rfl, .inr (.inr rfl), hu⟩
      · cases h
  · rintro ⟨e, flags, rfl, ⟨rfl, rfl, rfl⟩ | ⟨rfl, rfl⟩ | rfl, h⟩ <;>
    · simp only [decodePositions, h]
      rfl

/-- **The values that are decoded to a member.** -/
theorem decodeMember_eq_ok_iff {j : Json} {n : String} {t : Ty} {o r : Bool} :
    decodeMember j = .ok ⟨n, t, o, r⟩ ↔ ∃ e, IsLooseMember n e o r j ∧ decodeTy e = .ok t := by
  simp only [IsLooseMember]
  constructor
  · intro h
    cases j with
    | object fs =>
      obtain ⟨e, hn, he, ho, hr, h⟩ := decodeMember_object_eq_ok_iff.1 h
      exact ⟨e, .inl ⟨fs, rfl, hn, he, ho, hr⟩, h⟩
    | array js =>
      rw [decodeMember] at h
      obtain ⟨e, flags, rfl, hf, h⟩ := decodePositions_eq_ok_iff.1 h
      exact ⟨e, .inr ⟨flags, rfl, hf⟩, h⟩
    | _ =>
      rw [decodeMember] at h
      · cases h
      all_goals simp
  · rintro ⟨e, ⟨fs, rfl, hn, he, ho, hr⟩ | ⟨flags, rfl, hf⟩, h⟩
    · exact decodeMember_of_fields hn he ho hr h
    · rw [decodeMember]
      exact decodePositions_eq_ok_iff.2 ⟨e, flags, rfl, hf, h⟩

/-! ### Loose forms -/

mutual

/-- **The loose forms of a type.** -/
def LooseForm : Ty → Json → Prop
  | .primitive p, j => j = .string p.name
  | .predefined p, j => j = .string p.name
  | .reference n, j => ∃ fs, IsLooseNode .reference fs j ∧ HasField fs "name" (.string n)
  | .array r t, j => ∃ fs e, IsLooseNode .array fs j ∧ HasField fs "readonly" (.boolean r) ∧
      HasField fs "element" e ∧ LooseForm t e
  | .operator o t, j => ∃ fs e, IsLooseNode o.tag fs j ∧ HasField fs "element" e ∧ LooseForm t e
  | .withDefault t v, j => ∃ fs e, IsLooseNode .withDefault fs j ∧ HasField fs "element" e ∧
      HasField fs "defaultValue" (.string v) ∧ LooseForm t e
  | .function t ts, j => ∃ fs e es, IsLooseNode .function fs j ∧ HasField fs "returnType" e ∧
      HasField fs "argumentTypes" (.array es) ∧ LooseForm t e ∧ LooseListForm ts es
  | .objectLiteral ts ms f, j => ∃ fs es os, IsLooseNode .objectLiteral fs j ∧
      HasField fs "mixins" (.array es) ∧ HasField fs "members" (.array os) ∧
      HasField fs "allMembersReadonly" (.boolean f) ∧ LooseListForm ts es ∧
      LooseMembersForm ms os
  | .union ts, j => ∃ fs es, IsLooseNode .union fs j ∧ HasField fs "elements" (.array es) ∧
      LooseListForm ts es
  | .enumeration p, j => ∃ fs, IsLooseNode .enumeration fs j ∧
      HasField fs "element" (.string p.name)
  | .event e t, j => ∃ fs v, IsLooseNode e.tag fs j ∧ HasField fs "element" v ∧ LooseForm t v

/-- The loose forms of a list of types, item by item. -/
def LooseListForm : List Ty → List Json → Prop
  | [], js => js = []
  | t :: ts, js => ∃ e es, js = e :: es ∧ LooseForm t e ∧ LooseListForm ts es

/-- The loose forms of a list of members, item by item. -/
def LooseMembersForm : List (Member Ty) → List Json → Prop
  | [], js => js = []
  | ⟨n, t, o, r⟩ :: ms, js => ∃ e i is, js = i :: is ∧ IsLooseMember n e o r i ∧ LooseForm t e ∧
      LooseMembersForm ms is

end

/-! ### What is decoded -/

theorem decodeList_eq_ok_iff {v : Json} {ts : List Ty} :
    decodeList v = .ok ts ↔ ∃ es, v = .array es ∧ decodeTys es = .ok ts := by
  cases v <;> simp [decodeList, wrongKind]

theorem decodeMembers_eq_ok_iff {v : Json} {ms : List (Member Ty)} :
    decodeMembers v = .ok ms ↔ ∃ os, v = .array os ∧ decodeMemberItems os = .ok ms := by
  cases v <;> simp [decodeMembers, wrongKind]

theorem decodeTys_eq_nil_iff {js : List Json} : decodeTys js = .ok [] ↔ js = [] := by
  cases js with
  | nil => simp [decodeTys]
  | cons e es => simp [decodeTys, bind_eq_ok_iff, -bind_pure_comp, pure_eq_ok_iff]

theorem decodeTys_eq_cons_iff {t : Ty} {ts : List Ty} {js : List Json} :
    decodeTys js = .ok (t :: ts) ↔
      ∃ e es, js = e :: es ∧ decodeTy e = .ok t ∧ decodeTys es = .ok ts := by
  cases js with
  | nil => simp [decodeTys]
  | cons e es => simp [decodeTys, bind_eq_ok_iff, -bind_pure_comp, pure_eq_ok_iff, ← and_assoc]

theorem decodeMemberItems_eq_nil_iff {js : List Json} :
    decodeMemberItems js = .ok [] ↔ js = [] := by
  cases js with
  | nil => simp [decodeMemberItems]
  | cons e es => simp [decodeMemberItems, bind_eq_ok_iff, -bind_pure_comp, pure_eq_ok_iff]

theorem decodeMemberItems_eq_cons_iff {m : Member Ty} {ms : List (Member Ty)} {js : List Json} :
    decodeMemberItems js = .ok (m :: ms) ↔
      ∃ i is, js = i :: is ∧ decodeMember i = .ok m ∧ decodeMemberItems is = .ok ms := by
  cases js with
  | nil => simp [decodeMemberItems]
  | cons e es =>
    simp [decodeMemberItems, bind_eq_ok_iff, -bind_pure_comp, pure_eq_ok_iff, ← and_assoc]

/-- What is decoded is a bare name or a node. -/
theorem exists_of_decodeTy {j : Json} {t : Ty} (h : decodeTy j = .ok t) :
    (∃ n, j = .string n ∧ (Draft.named n).resolve = .ok t) ∨
      ∃ fs, j = .object fs ∧ decodeTy (.object fs) = .ok t := by
  cases j with
  | string n =>
    rw [decodeTy] at h
    exact .inl ⟨n, rfl, h⟩
  | object fs => exact .inr ⟨fs, rfl, h⟩
  | _ =>
    rw [decodeTy] at h
    · cases h
    all_goals simp

/-- The values that are decoded to a type without a tag. -/
theorem decodeTy_eq_ok_iff_of_bare {j : Json} {t : Ty} (ht : t.tag? = none) :
    decodeTy j = .ok t ↔ ∃ n, j = .string n ∧ (Draft.named n).resolve = .ok t := by
  constructor
  · intro h
    rcases exists_of_decodeTy h with hn | ⟨fs, -, h⟩
    · exact hn
    · obtain ⟨tag, htag, -⟩ := decodeTy_object_eq_ok_iff.1 h
      cases ht.symm.trans htag
  · rintro ⟨n, rfl, h⟩
    rwa [decodeTy]

/-- The values that are decoded to a type with a tag. -/
theorem decodeTy_eq_ok_iff_of_tag {j : Json} {t : Ty} {tag : Tag} (ht : t.tag? = some tag) :
    decodeTy j = .ok t ↔ ∃ fs, IsLooseNode tag fs j ∧
      ∀ f ∈ tag.fields, ∃ v, HasField fs f.key v ∧ t.slots.Fits f v := by
  constructor
  · intro h
    rcases exists_of_decodeTy h with ⟨n, -, hn⟩ | ⟨fs, rfl, h⟩
    · rcases resolve_named_eq_ok_iff.1 hn with ⟨p, rfl, -⟩ | ⟨p, rfl, -⟩ <;> cases ht
    · obtain ⟨tag', htag, hv, hs⟩ := decodeTy_object_eq_ok_iff.1 h
      cases ht.symm.trans htag
      exact ⟨fs, ⟨rfl, hv⟩, hs⟩
  · rintro ⟨fs, ⟨rfl, hv⟩, hs⟩
    exact decodeTy_object_eq_ok_iff.2 ⟨tag, ht, hv, hs⟩

/-- The values that are decoded to a type whose node has the field `element` alone. -/
theorem decodeTy_eq_ok_iff_of_element {j : Json} {t u : Ty} {tag : Tag} (ht : t.tag? = some tag)
    (hf : tag.fields = [.element]) (hs : t.slots = { element := some u }) :
    decodeTy j = .ok t ↔
      ∃ fs e, IsLooseNode tag fs j ∧ HasField fs "element" e ∧ decodeTy e = .ok u := by
  rw [decodeTy_eq_ok_iff_of_tag ht, hf, hs]
  simp [Slots.Fits, Field.key]

mutual

/-- **The values that are decoded to a type are its loose forms.** -/
theorem decodeTy_eq_ok_iff : ∀ (t : Ty) {j : Json}, decodeTy j = .ok t ↔ LooseForm t j
  | .primitive p, j => by
    rw [decodeTy_eq_ok_iff_of_bare rfl]
    simp [resolve_named_eq_ok_iff, LooseForm]
  | .predefined p, j => by
    rw [decodeTy_eq_ok_iff_of_bare rfl]
    simp [resolve_named_eq_ok_iff, LooseForm]
  | .reference n, j => by
    rw [decodeTy_eq_ok_iff_of_tag rfl]
    simp [Tag.fields, Slots.Fits, Ty.slots, Field.key, decodeText_eq_ok_iff, LooseForm]
  | .array r t, j => by
    rw [decodeTy_eq_ok_iff_of_tag rfl]
    simp [Tag.fields, Slots.Fits, Ty.slots, Field.key, decodeFlag_eq_ok_iff, LooseForm,
      decodeTy_eq_ok_iff t]
  | .operator o t, j => by
    rw [decodeTy_eq_ok_iff_of_element rfl (by cases o <;> rfl) rfl]
    simp only [decodeTy_eq_ok_iff t, LooseForm]
  | .withDefault t v, j => by
    rw [decodeTy_eq_ok_iff_of_tag rfl]
    simp only [Tag.fields, List.mem_cons, List.not_mem_nil, or_false, forall_eq_or_imp, forall_eq,
      Field.key, Slots.Fits, Ty.slots, Option.some.injEq, exists_eq_left', exists_eq_right,
      decodeText_eq_ok_iff, decodeTy_eq_ok_iff t, LooseForm]
    constructor
    · rintro ⟨fs, hj, ⟨e, he, h⟩, hv⟩
      exact ⟨fs, e, hj, he, hv, h⟩
    · rintro ⟨fs, e, hj, he, hv, h⟩
      exact ⟨fs, hj, ⟨e, he, h⟩, hv⟩
  | .function t ts, j => by
    rw [decodeTy_eq_ok_iff_of_tag rfl]
    simp only [Tag.fields, List.mem_cons, List.not_mem_nil, or_false, forall_eq_or_imp, forall_eq,
      Field.key, Slots.Fits, Ty.slots, Option.some.injEq, exists_eq_left',
      decodeList_eq_ok_iff, decodeTy_eq_ok_iff t, decodeTys_eq_ok_iff ts, LooseForm]
    constructor
    · rintro ⟨fs, hj, ⟨e, he, h⟩, _, hes, es, rfl, hl⟩
      exact ⟨fs, e, es, hj, he, hes, h, hl⟩
    · rintro ⟨fs, e, es, hj, he, hes, h, hl⟩
      exact ⟨fs, hj, ⟨e, he, h⟩, _, hes, es, rfl, hl⟩
  | .objectLiteral ts ms f, j => by
    rw [decodeTy_eq_ok_iff_of_tag rfl]
    simp only [Tag.fields, List.mem_cons, List.not_mem_nil, or_false, forall_eq_or_imp, forall_eq,
      Field.key, Slots.Fits, Ty.slots, Option.some.injEq, exists_eq_left', exists_eq_right,
      decodeList_eq_ok_iff, decodeMembers_eq_ok_iff, decodeFlag_eq_ok_iff,
      decodeTys_eq_ok_iff ts, decodeMemberItems_eq_ok_iff ms, LooseForm]
    constructor
    · rintro ⟨fs, hj, ⟨_, hes, es, rfl, hl⟩, ⟨_, hos, os, rfl, hm⟩, hf⟩
      exact ⟨fs, es, os, hj, hes, hos, hf, hl, hm⟩
    · rintro ⟨fs, es, os, hj, hes, hos, hf, hl, hm⟩
      exact ⟨fs, hj, ⟨_, hes, es, rfl, hl⟩, ⟨_, hos, os, rfl, hm⟩, hf⟩
  | .union ts, j => by
    rw [decodeTy_eq_ok_iff_of_tag rfl]
    simp [Tag.fields, Slots.Fits, Ty.slots, Field.key, decodeList_eq_ok_iff, LooseForm,
      decodeTys_eq_ok_iff ts]
  | .enumeration p, j => by
    rw [decodeTy_eq_ok_iff_of_tag rfl]
    simp [Tag.fields, Slots.Fits, Ty.slots, Field.key, decodeText_eq_ok_iff, LooseForm]
  | .event e t, j => by
    rw [decodeTy_eq_ok_iff_of_element rfl (by cases e <;> rfl) rfl]
    simp only [decodeTy_eq_ok_iff t, LooseForm]

/-- The items of a list. -/
theorem decodeTys_eq_ok_iff : ∀ (ts : List Ty) {js : List Json},
    decodeTys js = .ok ts ↔ LooseListForm ts js
  | [], js => decodeTys_eq_nil_iff
  | t :: ts, js => by
    simp only [decodeTys_eq_cons_iff, decodeTy_eq_ok_iff t, decodeTys_eq_ok_iff ts, LooseListForm]

/-- The members of a list. -/
theorem decodeMemberItems_eq_ok_iff : ∀ (ms : List (Member Ty)) {js : List Json},
    decodeMemberItems js = .ok ms ↔ LooseMembersForm ms js
  | [], js => decodeMemberItems_eq_nil_iff
  | ⟨n, t, o, r⟩ :: ms, js => by
    simp only [decodeMemberItems_eq_cons_iff, decodeMember_eq_ok_iff, decodeTy_eq_ok_iff t,
      decodeMemberItems_eq_ok_iff ms, LooseMembersForm]
    constructor
    · rintro ⟨i, is, hjs, ⟨e, hi, h⟩, hm⟩
      exact ⟨e, i, is, hjs, hi, h, hm⟩
    · rintro ⟨e, i, is, hjs, hi, h, hm⟩
      exact ⟨i, is, hjs, ⟨e, hi, h⟩, hm⟩

end

end Wire

end NativeTypes
