import Mathlib.Data.List.Nodup
import NativeTypes.Wire.Decode

/-! # Gathering fields in any order

The fields of a node and those of a member are gathered by a step that leaves out the fields it does
not know and puts every other one into a slot of its own, which has to be empty (`Gathers`). So what
is gathered depends only on what each field says, and not on the order, provided that no known field
is repeated (`Gathers.foldlM_eq_ok`). -/

namespace NativeTypes.Wire

open Json (Mismatch)

/-! ### Fields of an object -/

/-- An object has one field of name `k`, and its value is `v`. -/
def HasField (fs : List (String × Json)) (k : String) (v : Json) : Prop :=
  fs.filter (·.1 == k) = [(k, v)]

/-- An object has no field of name `k`. -/
def LacksField (fs : List (String × Json)) (k : String) : Prop :=
  fs.filter (·.1 == k) = []

theorem HasField.mem {fs : List (String × Json)} {k : String} {v : Json} (h : HasField fs k v) :
    (k, v) ∈ fs :=
  (List.mem_filter.1 (h ▸ List.mem_singleton.2 rfl)).1

theorem HasField.eq_of_mem {fs : List (String × Json)} {k : String} {v w : Json}
    (h : HasField fs k v) (hw : (k, w) ∈ fs) : w = v := by
  have hm : (k, w) ∈ fs.filter (·.1 == k) := List.mem_filter.2 ⟨hw, by simp⟩
  rw [h] at hm
  simpa using hm

theorem LacksField.not_mem {fs : List (String × Json)} {k : String} {v : Json}
    (h : LacksField fs k) : (k, v) ∉ fs := by
  intro hv
  have hm : (k, v) ∈ fs.filter (·.1 == k) := List.mem_filter.2 ⟨hv, by simp⟩
  rw [h] at hm
  cases hm

theorem hasField_cons_self {fs : List (String × Json)} {k : String} {v w : Json} :
    HasField ((k, v) :: fs) k w ↔ v = w ∧ LacksField fs k := by
  simp [HasField, LacksField]

/-- The tag of a node is that of its one text. -/
theorem tagOf_of_text {fs : List (String × Json)} {x : String}
    (h : HasField fs tagKey (.string x)) : tagOf fs = Tag.ofName x := by
  have hf : fs.filter (·.1 == tagKey) = [(tagKey, .string x)] := h
  simp only [tagOf, hf, decodeTag]
  cases Tag.ofName x <;> rfl

/-! ### Slots -/

section Slot

variable {σ φ : Type} {field? : String → Option φ} {key : φ → String}
  {step : σ → String × Json → Except Mismatch σ} {only : List φ → σ} {fits : φ → Json → Prop}

/-- `only F` is what is gathered once the fields `F` have been met, if each value is one that
`fits` its field. -/
structure Gathers (field? : String → Option φ) (key : φ → String)
    (step : σ → String × Json → Except Mismatch σ) (only : List φ → σ)
    (fits : φ → Json → Prop) : Prop where
  key_eq : ∀ {k f}, field? k = some f → key f = k
  skip : ∀ {s k v}, field? k = none → step s (k, v) = .ok s
  take : ∀ {F k v f}, field? k = some f → f ∉ F → fits f v →
    step (only F) (k, v) = .ok (only (f :: F))

/-- The known fields of an object. -/
def known (field? : String → Option φ) (fs : List (String × Json)) : List φ :=
  fs.filterMap fun p => field? p.1

theorem Gathers.foldlM (h : Gathers field? key step only fits) {fs : List (String × Json)}
    {F : List φ} (hf : ∀ p ∈ fs, ∀ f, field? p.1 = some f → fits f p.2)
    (hn : ((known field? fs).reverse ++ F).Nodup) :
    fs.foldlM step (only F) = .ok (only ((known field? fs).reverse ++ F)) := by
  induction fs generalizing F with
  | nil => rfl
  | cons p fs ih =>
    obtain ⟨k, v⟩ := p
    rw [List.forall_mem_cons] at hf
    rw [List.foldlM_cons]
    cases hk : field? k with
    | none =>
      have hs : known field? ((k, v) :: fs) = known field? fs := by simp [known, hk]
      rw [hs] at hn ⊢
      rw [h.skip hk]
      exact ih hf.2 hn
    | some f =>
      have hs : known field? ((k, v) :: fs) = f :: known field? fs := by simp [known, hk]
      rw [hs, List.reverse_cons, List.append_assoc, List.singleton_append] at hn ⊢
      have hF : f ∉ F := (List.nodup_cons.1 (List.nodup_append.1 hn).2.1).1
      rw [h.take hk hF (hf.1 f hk)]
      exact ih hf.2 hn

/-- No field is known twice where no name of a known field is repeated. -/
theorem nodup_known [DecidableEq φ] (hk : ∀ {k f}, field? k = some f → key f = k)
    {fs : List (String × Json)}
    (hf : ∀ k f, field? k = some f → (fs.filter (·.1 == key f)).length ≤ 1) :
    (known field? fs).Nodup := by
  refine List.nodup_iff_count_le_one.2 fun f => ?_
  by_cases hm : f ∈ known field? fs
  · obtain ⟨p, -, hp⟩ := List.mem_filterMap.1 hm
    rw [known, List.count_filterMap]
    calc fs.countP (fun p => field? p.1 == some f)
        ≤ fs.countP (·.1 == key f) := List.countP_mono_left fun q _ hq => by
          rw [hk (eq_of_beq hq)]
          exact beq_self_eq_true q.1
      _ = (fs.filter (·.1 == key f)).length := List.countP_eq_length_filter
      _ ≤ 1 := hf p.1 f hp
  · rw [List.count_eq_zero.2 hm]
    exact Nat.zero_le 1

/-- **What is gathered does not depend on the order.** -/
theorem Gathers.foldlM_eq_ok [DecidableEq φ] (h : Gathers field? key step only fits)
    {fs : List (String × Json)}
    (hf : ∀ k f, field? k = some f →
      LacksField fs (key f) ∨ ∃ v, HasField fs (key f) v ∧ fits f v) :
    fs.foldlM step (only []) = .ok (only (known field? fs).reverse) := by
  have hfit : ∀ p ∈ fs, ∀ f, field? p.1 = some f → fits f p.2 := by
    rintro ⟨k, v⟩ hp f hk
    obtain rfl := h.key_eq hk
    rcases hf _ f hk with hl | ⟨w, hw, hfw⟩
    · exact absurd hp hl.not_mem
    · exact hw.eq_of_mem hp ▸ hfw
  have hn : (known field? fs).Nodup := nodup_known h.key_eq fun k f hk => by
    rcases hf k f hk with hl | ⟨w, hw, -⟩
    · rw [hl]
      exact Nat.zero_le 1
    · rw [hw]
      exact Nat.le_refl 1
  have hr : ((known field? fs).reverse ++ []).Nodup := by
    rw [List.append_nil]
    exact List.nodup_reverse.2 hn
  simpa using h.foldlM hfit hr

theorem mem_known {fs : List (String × Json)} {f : φ} {v : Json}
    (hk : field? (key f) = some f) (hv : HasField fs (key f) v) : f ∈ known field? fs :=
  List.mem_filterMap.2 ⟨_, hv.mem, hk⟩

end Slot

end NativeTypes.Wire
