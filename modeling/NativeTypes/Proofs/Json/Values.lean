import NativeTypes.Proofs.Json.Grammar
import NativeTypes.Proofs.Json.Fields

/-! # What is read as a value

`value_run_eq_ok_iff` opens `Reader.value`: a list, an object, or a value that holds no others. A
string and an object are each read in one way (`value_run_eq_string_iff`,
`value_run_eq_object_iff`), and the reader of a string reads what the reader of a value reads as one
(`string_run_eq_ok_iff`). -/

namespace NativeTypes.Json

theorem scalar?_bracket {c : Char} {s : List Char} (hc : c = '[' ∨ c = '{') :
    scalar? (c :: s) = none := by
  rcases hc with rfl | rfl <;> simp [scalar?]

/-- A value that holds no others has depth zero. -/
theorem depth_of_scalar? {s r : List Char} {j : Json} (h : scalar? s = some (.ok (j, r))) :
    j.depth = 0 := by
  unfold scalar? at h
  split at h
  iterate 4
    · obtain ⟨x, -, he⟩ := map_eq_ok (Option.some.inj h)
      cases he
      simp [depth]
  · split at h
    · obtain ⟨x, -, he⟩ := map_eq_ok (Option.some.inj h)
      cases he
      simp [depth]
    · cases h
  · cases h

theorem map_eq_ok_iff {ε α β : Type} {x : Except ε α} {f : α → β} {b : β} :
    x.map f = .ok b ↔ ∃ a, x = .ok a ∧ f a = b := by
  constructor
  · exact map_eq_ok
  · rintro ⟨a, rfl, rfl⟩
    rfl

/-- The reader of what is inside a value. -/
def insideReader : Nat → Option (Reader Json)
  | 0 => none
  | d + 1 => some (Reader.value d)

theorem value_run (d : Nat) (s : List Char) :
    (Reader.value d).run s = valueWith (insideReader d) s := by
  cases d <;> rfl

/-- **What is read as a value**: a list, an object, or a value that holds no others. -/
theorem value_run_eq_ok_iff {d : Nat} {s r : List Char} {j : Json} :
    (Reader.value d).run s = .ok (j, r) ↔
      (∃ t e js, blank s = '[' :: t ∧ d = e + 1 ∧ items (Reader.value e) t = .ok (js, r) ∧
        j = array js) ∨
      (∃ t e fs, blank s = '{' :: t ∧ d = e + 1 ∧
        ReadsObject (Reader.value e) fs t r ∧ j = object fs) ∨
      scalar? (blank s) = some (.ok (j, r)) := by
  rw [value_run, valueWith]
  constructor
  · intro h
    split at h
    · rename_i t ht
      cases d with
      | zero => cases h
      | succ e =>
        obtain ⟨⟨js, u⟩, hi, he⟩ := map_eq_ok_iff.1 h
        cases he
        exact .inl ⟨t, e, js, ht, rfl, hi, rfl⟩
    · rename_i t ht
      cases d with
      | zero => cases h
      | succ e =>
        obtain ⟨⟨fs, u⟩, hf, he⟩ := map_eq_ok_iff.1 h
        cases he
        exact .inr (.inl ⟨t, e, fs.reverse, ht, rfl, fields_rawField_eq_ok_iff.1 hf, rfl⟩)
    · cases hx : scalar? (blank s) with
      | none => rw [hx] at h; cases h
      | some x => rw [hx] at h; exact .inr (.inr (congrArg some h))
  · rintro (⟨t, e, js, ht, rfl, hi, rfl⟩ | ⟨t, e, fs, ht, rfl, hf, rfl⟩ | h)
    · simp only [ht]
      exact map_eq_ok_iff.2 ⟨_, hi, rfl⟩
    · simp only [ht]
      rw [← fs.reverse_reverse] at hf
      exact map_eq_ok_iff.2 ⟨_, fields_rawField_eq_ok_iff.2 hf, by simp⟩
    · split
      · rename_i t ht
        simp [ht, scalar?_bracket] at h
      · rename_i t ht
        simp [ht, scalar?_bracket] at h
      · rw [h, Option.getD_some]

/-! ### Strings and objects -/

theorem scalar?_eq_string_iff {s r : List Char} {x : String} :
    scalar? s = some (.ok (string x, r)) ↔
      ∃ t cs, s = '"' :: t ∧ stringRest t = .ok (cs, r) ∧ String.ofList cs = x := by
  constructor
  · intro h
    unfold scalar? at h
    split at h
    iterate 3
      · obtain ⟨u, -, he⟩ := map_eq_ok (Option.some.inj h)
        cases he
    · obtain ⟨⟨cs, u⟩, hu, he⟩ := map_eq_ok (Option.some.inj h)
      cases he
      exact ⟨_, cs, rfl, hu, rfl⟩
    · split at h
      · obtain ⟨u, -, he⟩ := map_eq_ok (Option.some.inj h)
        cases he
      · cases h
    · cases h
  · rintro ⟨t, cs, rfl, ht, rfl⟩
    rw [scalar?, ht]
    rfl

theorem value_run_eq_string_iff {d : Nat} {s r : List Char} {x : String} :
    (Reader.value d).run s = .ok (string x, r) ↔
      ∃ t cs, blank s = '"' :: t ∧ stringRest t = .ok (cs, r) ∧ String.ofList cs = x := by
  rw [value_run_eq_ok_iff, ← scalar?_eq_string_iff]
  constructor
  · rintro (⟨t, e, js, -, -, -, hj⟩ | ⟨t, e, fs, -, -, -, hj⟩ | h)
    · cases hj
    · cases hj
    · exact h
  · exact fun h => .inr (.inr h)

theorem string_run_eq_ok_iff {expected : String} {d : Nat} {s r : List Char} {x : String} :
    (Reader.string expected).run s = .ok (x, r) ↔
      (Reader.value d).run s = .ok (string x, r) := by
  rw [value_run_eq_string_iff]
  simp only [Reader.string]
  constructor
  · intro h
    split at h
    · rename_i t ht
      obtain ⟨⟨cs, u⟩, hu, he⟩ := map_eq_ok h
      cases he
      exact ⟨t, cs, ht, hu, rfl⟩
    · cases h
  · rintro ⟨t, cs, ht, hu, rfl⟩
    simp only [ht, hu]
    rfl

theorem value_run_eq_object_iff {d : Nat} {s r : List Char} {fs : List (String × Json)} :
    (Reader.value d).run s = .ok (object fs, r) ↔
      ∃ t e, blank s = '{' :: t ∧ d = e + 1 ∧ ReadsObject (Reader.value e) fs t r := by
  rw [value_run_eq_ok_iff]
  constructor
  · rintro (⟨t, e, js, -, -, -, hj⟩ | ⟨t, e, gs, ht, hd, hr, hj⟩ | h)
    · cases hj
    · cases hj
      exact ⟨t, e, ht, hd, hr⟩
    · have hd := depth_of_scalar? h
      rw [depth] at hd
      omega
  · rintro ⟨t, e, ht, hd, hr⟩
    exact .inr (.inl ⟨t, e, fs, ht, hd, hr, rfl⟩)

end NativeTypes.Json
