import NativeTypes.Json.Reader
import NativeTypes.Proofs.Except
import NativeTypes.Proofs.Wire.Slots

/-! # What was gathered

Where the fields of a node or of a member have been gathered, each field that is known occurs at
most once, and its slot holds what its value is decoded to (`Collects.foldlM`). This is the converse
of `Gathers`: from what a node was decoded to, it says how the node is spelled (`draftOf_eq_ok_iff`,
`decodeMemberFields_eq_ok_iff`). -/

namespace NativeTypes.Wire

open Json (Mismatch)

theorem hasField_cons_of_ne {fs : List (String × Json)} {k l : String} {v w : Json} (h : l ≠ k) :
    HasField ((l, w) :: fs) k v ↔ HasField fs k v := by
  simp [HasField, h]

theorem lacksField_cons_of_ne {fs : List (String × Json)} {k l : String} {w : Json} (h : l ≠ k) :
    LacksField ((l, w) :: fs) k ↔ LacksField fs k := by
  simp [LacksField, h]

section Slot

variable {σ φ : Type} {field? : String → Option φ} {key : φ → String}
  {step : σ → String × Json → Except Mismatch σ} {has : σ → φ → Bool} {fits : σ → φ → Json → Prop}

/-- A step leaves out the fields that it does not know, and fills the slot of every other one, which
was empty before; the other slots stay as they are. -/
structure Collects (field? : String → Option φ) (key : φ → String)
    (step : σ → String × Json → Except Mismatch σ) (has : σ → φ → Bool)
    (fits : σ → φ → Json → Prop) : Prop where
  key_eq : ∀ {k f}, field? k = some f → key f = k
  skip : ∀ {s k v}, field? k = none → step s (k, v) = .ok s
  empty : ∀ {s s' k v f}, field? k = some f → step s (k, v) = .ok s' → has s f = false
  fill : ∀ {s s' k v f}, field? k = some f → step s (k, v) = .ok s' → has s' f = true ∧ fits s' f v
  keep : ∀ {s s' k v f g}, field? k = some f → step s (k, v) = .ok s' → g ≠ f →
    has s' g = has s g ∧ ∀ w, fits s g w → fits s' g w

/-- **What holds of the slots after all fields.** A slot that was filled before stays as it is, and
its field does not occur; any other slot is filled by the one field of its name, or stays empty. -/
theorem Collects.foldlM (h : Collects field? key step has fits) {fs : List (String × Json)}
    {s s' : σ} (hs : fs.foldlM step s = .ok s') {f : φ} (hf : field? (key f) = some f) :
    (has s f = true → LacksField fs (key f) ∧ has s' f = true ∧ ∀ w, fits s f w → fits s' f w) ∧
    (has s f = false → LacksField fs (key f) ∧ has s' f = false ∨
      ∃ v, HasField fs (key f) v ∧ fits s' f v) := by
  induction fs generalizing s with
  | nil =>
    cases hs
    exact ⟨fun hf => ⟨rfl, hf, fun _ => id⟩, fun hf => .inl ⟨rfl, hf⟩⟩
  | cons p fs ih =>
    obtain ⟨k, v⟩ := p
    rw [List.foldlM_cons] at hs
    obtain ⟨s₁, h₁, hs⟩ := bind_eq_ok_iff.1 hs
    have ih := ih hs
    by_cases hk : k = key f
    · subst hk
      have hempty := h.empty hf h₁
      obtain ⟨hhas, hfit⟩ := h.fill hf h₁
      obtain ⟨hl, -, hkeep⟩ := ih.1 hhas
      refine ⟨fun hh => ?_, fun _ => .inr ⟨v, hasField_cons_self.2 ⟨rfl, hl⟩, hkeep v hfit⟩⟩
      rw [hempty] at hh
      cases hh
    · simp only [lacksField_cons_of_ne hk, hasField_cons_of_ne hk]
      cases hg : field? k with
      | none =>
        rw [h.skip hg] at h₁
        cases h₁
        exact ih
      | some g =>
        have hne : f ≠ g := by
          rintro rfl
          exact hk (h.key_eq hg).symm
        obtain ⟨hh, hw⟩ := h.keep hg h₁ hne
        rw [hh] at ih
        exact ⟨fun hs => (ih.1 hs).imp_right fun ⟨hh', hw'⟩ => ⟨hh', fun w hfw => hw' w (hw w hfw)⟩,
          ih.2⟩

end Slot

/-! ### Nodes -/

theorem Slots.put_eq_ok {s s' : Slots} {f : Field} {v : Json} (h : s.put f v = .ok s') :
    (s'.has f = true ∧ s'.Fits f v) ∧
      ∀ g, g ≠ f → s'.has g = s.has g ∧ ∀ w, s.Fits g w → s'.Fits g w := by
  cases f <;>
  · obtain ⟨x, hx, rfl⟩ := Json.map_eq_ok h
    refine ⟨⟨rfl, x, rfl, hx⟩, fun g hg => ?_⟩
    cases g <;> first | exact absurd rfl hg | exact ⟨rfl, fun _ => id⟩

theorem fieldStep_eq_ok {tag : Tag} {s s' : Slots} {k : String} {v : Json} {f : Field}
    (hk : tag.field? k = some f) (h : fieldStep tag s (k, v) = .ok s') :
    s.has f = false ∧ s.put f v = .ok s' := by
  simp only [fieldStep, hk] at h
  split at h
  · cases h
  · rename_i hs
    exact ⟨by simpa using hs, h⟩

theorem collects_fieldStep (tag : Tag) :
    Collects tag.field? Field.key (fieldStep tag) Slots.has Slots.Fits where
  key_eq := Tag.key_of_field?
  skip hk := by simp only [fieldStep, hk]
  empty hk h := (fieldStep_eq_ok hk h).1
  fill hk h := (Slots.put_eq_ok (fieldStep_eq_ok hk h).2).1
  keep hk h hg := (Slots.put_eq_ok (fieldStep_eq_ok hk h).2).2 _ hg

/-- **The fields of a node that was decoded**: each that its tag knows occurs once or is missing. -/
theorem decodeFields_slots {tag : Tag} {s : Slots} {fs : List (String × Json)}
    (h : decodeFields tag {} fs = .ok s) {f : Field} (hf : f ∈ tag.fields) :
    LacksField fs f.key ∧ s.has f = false ∨ ∃ v, HasField fs f.key v ∧ s.Fits f v := by
  rw [decodeFields_eq_foldlM] at h
  exact ((collects_fieldStep tag).foldlM h (Tag.field?_key hf)).2 (by cases f <;> rfl)

theorem need_eq_ok_iff {α : Type} {f : Field} {o : Option α} {a : α} :
    need f o = .ok a ↔ o = some a := by
  cases o <;> simp [need]

/-- A node is built only where no field is missing. -/
theorem Tag.has_of_build {tag : Tag} {s : Slots} {d : Draft} (h : tag.build s = .ok d) {f : Field}
    (hf : f ∈ tag.fields) : s.has f = true := by
  cases tag <;>
  · simp only [build, bind_eq_ok_iff, need_eq_ok_iff] at h
    simp only [fields, List.mem_cons, List.not_mem_nil, or_false] at hf
    grind [Slots.has]

/-- **What a node is decoded to**: each field of its tag occurs once, and says what the draft is
built from. -/
theorem draftOf_eq_ok_iff {tag : Tag} {fs : List (String × Json)} {d : Draft} :
    draftOf tag fs = .ok d ↔
      ∃ s : Slots, (∀ f ∈ tag.fields, ∃ v, HasField fs f.key v ∧ s.Fits f v) ∧
        tag.build s = .ok d := by
  constructor
  · intro h
    obtain ⟨s, hs, hb⟩ := bind_eq_ok_iff.1 h
    refine ⟨s, fun f hf => ?_, hb⟩
    rcases decodeFields_slots hs hf with ⟨-, h0⟩ | hv
    · rw [Tag.has_of_build hb hf] at h0
      cases h0
    · exact hv
  · rintro ⟨s, hs, hb⟩
    rw [draftOf, decodeFields_eq_ok hs]
    exact (tag.build_only s).trans hb

/-! ### Members -/

theorem MemberSlots.put_eq_ok {s s' : MemberSlots} {f : MemberField} {v : Json}
    (h : s.put f v = .ok s') : (s'.has f = true ∧ s'.Fits f v) ∧
      ∀ g, g ≠ f → s'.has g = s.has g ∧ ∀ w, s.Fits g w → s'.Fits g w := by
  cases f <;>
  · obtain ⟨x, hx, rfl⟩ := Json.map_eq_ok h
    refine ⟨⟨rfl, x, rfl, hx⟩, fun g hg => ?_⟩
    cases g <;> first | exact absurd rfl hg | exact ⟨rfl, fun _ => id⟩

theorem memberStep_eq_ok {s s' : MemberSlots} {k : String} {v : Json} {f : MemberField}
    (hk : MemberField.ofKey? k = some f) (h : memberStep s (k, v) = .ok s') :
    s.has f = false ∧ s.put f v = .ok s' := by
  simp only [memberStep, hk] at h
  split at h
  · cases h
  · rename_i hs
    exact ⟨by simpa using hs, h⟩

theorem collects_memberStep :
    Collects MemberField.ofKey? MemberField.key memberStep MemberSlots.has MemberSlots.Fits where
  key_eq := MemberField.key_of_ofKey?
  skip hk := by simp only [memberStep, hk]
  empty hk h := (memberStep_eq_ok hk h).1
  fill hk h := (MemberSlots.put_eq_ok (memberStep_eq_ok hk h).2).1
  keep hk h hg := (MemberSlots.put_eq_ok (memberStep_eq_ok hk h).2).2 _ hg

/-- **The fields of a member that was decoded**: each occurs once or is missing. -/
theorem decodeMemberFields_eq_ok_iff {s : MemberSlots} {fs : List (String × Json)} :
    decodeMemberFields {} fs = .ok s ↔ ∀ f : MemberField,
      LacksField fs f.key ∧ s.has f = false ∨ ∃ v, HasField fs f.key v ∧ s.Fits f v := by
  constructor
  · intro h f
    rw [decodeMemberFields_eq_foldlM] at h
    exact (collects_memberStep.foldlM h f.ofKey?_key).2 (by cases f <;> rfl)
  · exact decodeMemberFields_eq_ok

end NativeTypes.Wire
