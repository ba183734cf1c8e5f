import NativeTypes.Json.Reader

/-! # Lists and objects, one item at a time

`itemsFrom` and `fieldsFrom` succeed exactly where they read one item, or one field, and are then
either at the end or succeed on what follows (`itemsFrom_eq_ok_iff`, `fieldsFrom_eq_ok_iff`). -/

namespace NativeTypes.Json

section Items

variable {α : Type} {item : Reader α}

/-- **One step over an item.** -/
theorem itemsFrom_eq_ok_iff {s r : List Char} {as : List α} :
    itemsFrom item s = .ok (as, r) ↔ ∃ a t, item.run s = .ok (a, t) ∧
      (afterItem t = .ok (.close r) ∧ as = [a] ∨
        ∃ u bs, afterItem t = .ok (.more u) ∧ itemsFrom item u = .ok (bs, r) ∧ as = a :: bs) := by
  rw [itemsFrom]
  constructor
  · intro h
    split at h
    · cases h
    · rename_i a t ha
      refine ⟨a, t, ha, ?_⟩
      split at h
      · cases h
      · rename_i u hu
        cases h
        exact .inl ⟨hu, rfl⟩
      · rename_i u hu
        split at h
        · cases h
        · rename_i bs v hv
          cases h
          exact .inr ⟨u, bs, hu, hv, rfl⟩
  · rintro ⟨a, t, ha, ⟨ht, rfl⟩ | ⟨u, bs, ht, hu, rfl⟩⟩
    · split
      · rename_i he
        rw [ha] at he
        cases he
      · rename_i he
        rw [ha] at he
        cases he
        split <;> rename_i hn <;> rw [ht] at hn <;> cases hn
        rfl
    · split
      · rename_i he
        rw [ha] at he
        cases he
      · rename_i he
        rw [ha] at he
        cases he
        split <;> rename_i hn <;> rw [ht] at hn <;> cases hn
        rw [hu]

end Items

section Fields

variable {σ : Type} {field : σ → String → Except Mismatch (Reader σ)}

/-- **One step over a field.** -/
theorem fieldsFrom_eq_ok_iff {st st' : σ} {s r : List Char} :
    fieldsFrom field st s = .ok (st', r) ↔ ∃ k t reader u mid v, stringRest s = .ok (k, t) ∧
      field st (String.ofList k) = .ok reader ∧ colon t = .ok u ∧ reader.run u = .ok (mid, v) ∧
      (afterField v = .ok (.close r) ∧ st' = mid ∨
        ∃ w, afterField v = .ok (.more w) ∧ fieldsFrom field mid w = .ok (st', r)) := by
  rw [fieldsFrom]
  constructor
  · intro h
    split at h
    · cases h
    · rename_i k t hk
      split at h
      · cases h
      · rename_i reader hf
        split at h
        · cases h
        · rename_i u hc
          split at h
          · cases h
          · rename_i mid v hv
            refine ⟨k, t, reader, u, mid, v, hk, hf, hc, hv, ?_⟩
            split at h
            · cases h
            · rename_i hn
              cases h
              exact .inl ⟨hn, rfl⟩
            · rename_i w hn
              exact .inr ⟨w, hn, h⟩
  · rintro ⟨k, t, reader, u, mid, v, hk, hf, hc, hv, hn⟩
    split <;> rename_i hk' <;> rw [hk] at hk' <;> cases hk'
    simp only [hf]
    split <;> rename_i hc' <;> rw [hc] at hc' <;> cases hc'
    split <;> rename_i hv' <;> rw [hv] at hv' <;> cases hv'
    rcases hn with ⟨hn, rfl⟩ | ⟨w, hn, hw⟩
    · split <;> rename_i hn' <;> rw [hn] at hn' <;> cases hn'
      rfl
    · split <;> rename_i hn' <;> rw [hn] at hn' <;> cases hn'
      exact hw

/-- Where the value of a field is not read, the object is not. -/
theorem fieldsFrom_eq_error {st : σ} {s k t u : List Char} {reader : Reader σ} {f : Fault}
    (hk : stringRest s = .ok (k, t)) (hf : field st (String.ofList k) = .ok reader)
    (hc : colon t = .ok u) (hv : reader.run u = .error f) :
    fieldsFrom field st s = .error f := by
  rw [fieldsFrom]
  split <;> rename_i hk' <;> rw [hk] at hk' <;> cases hk'
  simp only [hf]
  split <;> rename_i hc' <;> rw [hc] at hc' <;> cases hc'
  split <;> rename_i hv' <;> rw [hv] at hv' <;> cases hv'
  rfl

end Fields

/-! ### After the opening bracket -/

theorem items_eq_ok_iff {α : Type} {item : Reader α} {s r : List Char} {as : List α} :
    items item s = .ok (as, r) ↔ firstItem s = .ok (.close r) ∧ as = [] ∨
      ∃ t, firstItem s = .ok (.more t) ∧ itemsFrom item t = .ok (as, r) := by
  rw [items]
  rcases firstItem s with _ | t | t <;> simp [and_comm, eq_comm]

theorem fields_eq_ok_iff {σ : Type} {field : σ → String → Except Mismatch (Reader σ)}
    {st st' : σ} {s r : List Char} :
    fields field st s = .ok (st', r) ↔ firstField s = .ok (.close r) ∧ st' = st ∨
      ∃ t, firstField s = .ok (.more t) ∧ fieldsFrom field st t = .ok (st', r) := by
  rw [fields]
  rcases firstField s with _ | t | t <;> simp [and_comm, eq_comm]

theorem objectRest_eq_ok_iff {σ α : Type} {field : σ → String → Except Mismatch (Reader σ)}
    {init : σ} {finish : σ → Except Mismatch α} {s r : List Char} {a : α} :
    objectRest field init finish s = .ok (a, r) ↔
      ∃ st, fields field init s = .ok (st, r) ∧ finish st = .ok a := by
  rw [objectRest]
  constructor
  · intro h
    split at h
    · cases h
    · rename_i st u hu
      split at h
      · rename_i ha
        cases h
        exact ⟨st, hu, ha⟩
      · cases h
  · rintro ⟨st, hu, ha⟩
    simp only [hu, ha]

/-! ### Readers of parts -/

theorem map_run_eq_ok_iff {α β : Type} {f : α → β} {x : Reader α} {s r : List Char} {b : β} :
    (x.map f).run s = .ok (b, r) ↔ ∃ a, x.run s = .ok (a, r) ∧ f a = b := by
  simp only [Reader.map]
  constructor
  · intro h
    split at h
    · rename_i a t ha
      cases h
      exact ⟨a, ha, rfl⟩
    · cases h
  · rintro ⟨a, ha, rfl⟩
    rw [ha]

theorem resolve_run_eq_ok_iff {α β : Type} {f : α → Except Mismatch β} {x : Reader α}
    {s r : List Char} {b : β} :
    (x.resolve f).run s = .ok (b, r) ↔ ∃ a, x.run s = .ok (a, r) ∧ f a = .ok b := by
  simp only [Reader.resolve]
  constructor
  · intro h
    split at h
    · rename_i a t ha
      split at h
      · rename_i hb
        cases h
        exact ⟨a, ha, hb⟩
      · cases h
    · cases h
  · rintro ⟨a, ha, hb⟩
    simp only [ha, hb]

theorem decode_eq_ok_iff {α : Type} {x : Reader α} {text : String} {a : α} :
    x.decode text = .ok a ↔ ∃ r, x.run text.toList = .ok (a, r) ∧ blank r = [] := by
  simp only [Reader.decode]
  constructor
  · intro h
    split at h
    · cases h
    · rename_i b t hb
      split at h
      · rename_i ht
        cases h
        exact ⟨t, hb, ht⟩
      · cases h
  · rintro ⟨r, hr, hb⟩
    simp only [hr, hb]

/-- The fault that a reader meets is reported. -/
theorem decode_eq_error {α : Type} {x : Reader α} {text : String} {f : Fault}
    (h : x.run text.toList = .error f) : x.decode text = .error (f.report text.toList) := by
  simp only [Reader.decode, h]

end NativeTypes.Json
