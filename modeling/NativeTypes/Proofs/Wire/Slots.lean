import NativeTypes.Proofs.Wire.Gather

/-! # Nodes and members, gathered

What a node says is given by slots `s` such that every known field fits its slot (`Slots.Fits`).
`Slots.only` are the slots of some of the fields: that is how far decoding has come after these
fields, in any order. So what is gathered in the end are the slots of all fields that the tag knows
(`decodeFields_eq_ok`), from which the same is built as from `s` (`Tag.build_only`).

Of a member everything known is gathered, and the slot of a field that is left out stays empty
(`decodeMemberFields_eq_ok`). -/

namespace NativeTypes.Wire

open Json (Mismatch)

theorem except_map_bind {ε α β γ : Type} (x : Except ε α) (f : α → β) (g : β → Except ε γ) :
    (x.map f >>= g) = x >>= fun a => g (f a) := by
  cases x <;> rfl

/-! ### Nodes -/

namespace Slots

/-- Puts the value of a field into its slot. -/
def put (s : Slots) (f : Field) (v : Json) : Except Mismatch Slots :=
  match f with
  | .name => (decodeText v).map fun x => { s with name := some x }
  | .readonly => (decodeFlag v).map fun x => { s with readonly := some x }
  | .element => (decodeTy v).map fun x => { s with element := some x }
  | .backing => (decodeText v).map fun x => { s with backing := some x }
  | .defaultValue => (decodeText v).map fun x => { s with defaultValue := some x }
  | .returnType => (decodeTy v).map fun x => { s with returnType := some x }
  | .argumentTypes => (decodeList v).map fun x => { s with argumentTypes := some x }
  | .mixins => (decodeList v).map fun x => { s with mixins := some x }
  | .members => (decodeMembers v).map fun x => { s with members := some x }
  | .allMembersReadonly => (decodeFlag v).map fun x => { s with allMembersReadonly := some x }
  | .elements => (decodeList v).map fun x => { s with elements := some x }

/-- The slot of a field holds what its value is decoded to. -/
def Fits (s : Slots) (f : Field) (v : Json) : Prop :=
  match f with
  | .name => ∃ x, s.name = some x ∧ decodeText v = .ok x
  | .readonly => ∃ x, s.readonly = some x ∧ decodeFlag v = .ok x
  | .element => ∃ x, s.element = some x ∧ decodeTy v = .ok x
  | .backing => ∃ x, s.backing = some x ∧ decodeText v = .ok x
  | .defaultValue => ∃ x, s.defaultValue = some x ∧ decodeText v = .ok x
  | .returnType => ∃ x, s.returnType = some x ∧ decodeTy v = .ok x
  | .argumentTypes => ∃ x, s.argumentTypes = some x ∧ decodeList v = .ok x
  | .mixins => ∃ x, s.mixins = some x ∧ decodeList v = .ok x
  | .members => ∃ x, s.members = some x ∧ decodeMembers v = .ok x
  | .allMembersReadonly => ∃ x, s.allMembersReadonly = some x ∧ decodeFlag v = .ok x
  | .elements => ∃ x, s.elements = some x ∧ decodeList v = .ok x

/-- The slots of the fields in `F`; the others are empty. -/
def only (s : Slots) (F : List Field) : Slots where
  name := if .name ∈ F then s.name else none
  readonly := if .readonly ∈ F then s.readonly else none
  element := if .element ∈ F then s.element else none
  backing := if .backing ∈ F then s.backing else none
  defaultValue := if .defaultValue ∈ F then s.defaultValue else none
  returnType := if .returnType ∈ F then s.returnType else none
  argumentTypes := if .argumentTypes ∈ F then s.argumentTypes else none
  mixins := if .mixins ∈ F then s.mixins else none
  members := if .members ∈ F then s.members else none
  allMembersReadonly := if .allMembersReadonly ∈ F then s.allMembersReadonly else none
  elements := if .elements ∈ F then s.elements else none

theorem only_nil (s : Slots) : s.only [] = {} := by
  simp [only]

theorem only_congr {s : Slots} {F G : List Field} (h : ∀ f, f ∈ F ↔ f ∈ G) :
    s.only F = s.only G := by
  simp only [only, h]

theorem has_only {s : Slots} {F : List Field} {f : Field} (hf : f ∉ F) :
    (s.only F).has f = false := by
  cases f <;> simp [has, only, hf]

/-- Meeting one more field. -/
theorem put_only {s : Slots} {F : List Field} {f : Field} {v : Json} (h : s.Fits f v) :
    (s.only F).put f v = .ok (s.only (f :: F)) := by
  cases f <;>
    · obtain ⟨x, hx, hv⟩ := h
      simp [put, only, hv, hx, Except.map]

end Slots

/-- Gathers a field of a node, if its tag knows it. -/
def fieldStep (tag : Tag) (s : Slots) (p : String × Json) : Except Mismatch Slots :=
  match tag.field? p.1 with
  | none => .ok s
  | some f => if s.has f then .error (.duplicateField p.1) else s.put f p.2

theorem decodeFields_eq_foldlM (tag : Tag) (s : Slots) (fs : List (String × Json)) :
    decodeFields tag s fs = fs.foldlM (fieldStep tag) s := by
  induction fs generalizing s with
  | nil => rfl
  | cons p fs ih =>
    obtain ⟨k, v⟩ := p
    rw [decodeFields, List.foldlM_cons, fieldStep]
    cases hk : tag.field? k with
    | none => exact ih s
    | some f =>
      by_cases hf : s.has f = true
      · simp only [hf, if_true]
        rfl
      · simp only [hf, Bool.false_eq_true, if_false]
        cases f <;> simp only [ih, Slots.put, except_map_bind]

theorem Tag.key_of_field? {tag : Tag} {k : String} {f : Field} (h : tag.field? k = some f) :
    f.key = k := by
  simpa using List.find?_some h

theorem Tag.mem_of_field? {tag : Tag} {k : String} {f : Field} (h : tag.field? k = some f) :
    f ∈ tag.fields :=
  List.mem_of_find?_eq_some h

theorem Tag.field?_key {tag : Tag} {f : Field} (h : f ∈ tag.fields) :
    tag.field? f.key = some f := by
  revert h
  cases tag <;> cases f <;> decide

theorem gathers_fieldStep (tag : Tag) (s : Slots) :
    Gathers tag.field? Field.key (fieldStep tag) s.only s.Fits where
  key_eq := Tag.key_of_field?
  skip hk := by simp only [fieldStep, hk]
  take hk hF hv := by
    simp only [fieldStep, hk, Slots.has_only hF]
    exact Slots.put_only hv

/-- **The fields of a node are gathered in any order**, and fields of other names are left out. -/
theorem decodeFields_eq_ok {tag : Tag} {s : Slots} {fs : List (String × Json)}
    (hf : ∀ f ∈ tag.fields, ∃ v, HasField fs f.key v ∧ s.Fits f v) :
    decodeFields tag {} fs = .ok (s.only tag.fields) := by
  have hg := (gathers_fieldStep tag s).foldlM_eq_ok
    fun k f hk => .inr (hf f (Tag.mem_of_field? hk))
  rw [decodeFields_eq_foldlM, ← s.only_nil, hg, Slots.only_congr fun f => ?_]
  rw [List.mem_reverse]
  constructor
  · intro h
    obtain ⟨p, -, hp⟩ := List.mem_filterMap.1 h
    exact Tag.mem_of_field? hp
  · intro h
    obtain ⟨v, hv, -⟩ := hf f h
    exact mem_known (Tag.field?_key h) hv

/-- A node is built from the slots that its tag knows. -/
theorem Tag.build_only (tag : Tag) (s : Slots) : tag.build (s.only tag.fields) = tag.build s := by
  cases tag <;> simp [Tag.build, Slots.only, Tag.fields]

/-! ### Members -/

namespace MemberSlots

/-- Puts the value of a field into its slot. -/
def put (s : MemberSlots) (f : MemberField) (v : Json) : Except Mismatch MemberSlots :=
  match f with
  | .name => (decodeText v).map fun x => { s with name := some x }
  | .type => (decodeTy v).map fun x => { s with type := some x }
  | .optional => (decodeFlag v).map fun x => { s with optional := some x }
  | .readonly => (decodeFlag v).map fun x => { s with readonly := some x }

/-- The slot of a field holds what its value is decoded to. -/
def Fits (s : MemberSlots) (f : MemberField) (v : Json) : Prop :=
  match f with
  | .name => ∃ x, s.name = some x ∧ decodeText v = .ok x
  | .type => ∃ x, s.type = some x ∧ decodeTy v = .ok x
  | .optional => ∃ x, s.optional = some x ∧ decodeFlag v = .ok x
  | .readonly => ∃ x, s.readonly = some x ∧ decodeFlag v = .ok x

/-- The slots of the fields in `F`; the others are empty. -/
def only (s : MemberSlots) (F : List MemberField) : MemberSlots where
  name := if .name ∈ F then s.name else none
  type := if .type ∈ F then s.type else none
  optional := if .optional ∈ F then s.optional else none
  readonly := if .readonly ∈ F then s.readonly else none

theorem only_nil (s : MemberSlots) : s.only [] = {} := by
  simp [only]

theorem ite_isSome {α : Type} {o : Option α} {p : Prop} [Decidable p] (h : o.isSome = true → p) :
    (if p then o else none) = o := by
  by_cases hp : p
  · exact if_pos hp
  · cases o with
    | none => exact ite_self none
    | some a => exact absurd (h rfl) hp

/-- No slot is emptied where what is held has been met. -/
theorem only_eq_self {s : MemberSlots} {F : List MemberField}
    (h : ∀ f, s.has f = true → f ∈ F) : s.only F = s := by
  obtain ⟨⟩ := s
  simp only [only, mk.injEq]
  exact ⟨ite_isSome (h .name), ite_isSome (h .type), ite_isSome (h .optional),
    ite_isSome (h .readonly)⟩

theorem has_only {s : MemberSlots} {F : List MemberField} {f : MemberField} (hf : f ∉ F) :
    (s.only F).has f = false := by
  cases f <;> simp [has, only, hf]

/-- Meeting one more field. -/
theorem put_only {s : MemberSlots} {F : List MemberField} {f : MemberField} {v : Json}
    (h : s.Fits f v) : (s.only F).put f v = .ok (s.only (f :: F)) := by
  cases f <;>
    · obtain ⟨x, hx, hv⟩ := h
      simp [put, only, hv, hx, Except.map]

end MemberSlots

/-- Gathers a field of a member, if it is known. -/
def memberStep (s : MemberSlots) (p : String × Json) : Except Mismatch MemberSlots :=
  match MemberField.ofKey? p.1 with
  | none => .ok s
  | some f => if s.has f then .error (.duplicateField p.1) else s.put f p.2

theorem decodeMemberFields_eq_foldlM (s : MemberSlots) (fs : List (String × Json)) :
    decodeMemberFields s fs = fs.foldlM memberStep s := by
  induction fs generalizing s with
  | nil => rfl
  | cons p fs ih =>
    obtain ⟨k, v⟩ := p
    rw [decodeMemberFields, List.foldlM_cons, memberStep]
    cases hk : MemberField.ofKey? k with
    | none => exact ih s
    | some f =>
      by_cases hf : s.has f = true
      · simp only [hf, if_true]
        rfl
      · simp only [hf, Bool.false_eq_true, if_false]
        cases f <;> simp only [ih, MemberSlots.put, except_map_bind]

theorem MemberField.key_of_ofKey? {k : String} {f : MemberField} (h : ofKey? k = some f) :
    f.key = k := by
  simpa using List.find?_some h

theorem MemberField.ofKey?_key (f : MemberField) : ofKey? f.key = some f := by
  cases f <;> decide

theorem gathers_memberStep (s : MemberSlots) :
    Gathers MemberField.ofKey? MemberField.key memberStep s.only s.Fits where
  key_eq := MemberField.key_of_ofKey?
  skip hk := by simp only [memberStep, hk]
  take hk hF hv := by
    simp only [memberStep, hk, MemberSlots.has_only hF]
    exact MemberSlots.put_only hv

/-- **The fields of a member are gathered in any order**, and fields of other names are left
out. -/
theorem decodeMemberFields_eq_ok {s : MemberSlots} {fs : List (String × Json)}
    (hf : ∀ f : MemberField, LacksField fs f.key ∧ s.has f = false ∨
      ∃ v, HasField fs f.key v ∧ s.Fits f v) : decodeMemberFields {} fs = .ok s := by
  have hg := (gathers_memberStep s).foldlM_eq_ok fun _ f _ => (hf f).imp_left And.left
  rw [decodeMemberFields_eq_foldlM, ← s.only_nil, hg, MemberSlots.only_eq_self fun f h => ?_]
  rcases hf f with ⟨-, h0⟩ | ⟨v, hv, -⟩
  · rw [h0] at h
    cases h
  · exact List.mem_reverse.2 (mem_known f.ofKey?_key hv)

end NativeTypes.Wire
