import NativeTypes.Proofs.Json.Raw.Reading

/-! # Values of JSON texts

`Reader.value` takes a JSON text as its value, if it has one and nests no deeper than the reader was
told (`takes_value`). Where a number in the text is out of range, or an escape in it makes no
character, the reader fails, in whatever text this stands. -/

namespace NativeTypes.Json

/-- The value of a text that nests no deeper than `d`. -/
def Raw.valueWithin? (d : Nat) (x : Raw) : Option Json :=
  if x.depth ≤ d then x.value? else none

theorem Raw.valueWithin?_eq_some_iff {d : Nat} {x : Raw} {j : Json} :
    x.valueWithin? d = some j ↔ x.depth ≤ d ∧ x.value? = some j := by
  simp [valueWithin?]

/-! ### Depth -/

namespace Raw

theorem depthOfItems_of_itemValues? {xs : List Raw} {js : List Json}
    (h : ∀ x ∈ xs, ∀ {j}, x.value? = some j → j.depth = x.depth) (hv : itemValues? xs = some js) :
    Json.depthOfItems js = depthOfItems xs := by
  induction xs generalizing js with
  | nil =>
    cases hv
    rfl
  | cons x xs ih =>
    rw [List.forall_mem_cons] at h
    obtain ⟨j, hj, hv⟩ := Option.bind_eq_some_iff.1 hv
    obtain ⟨js, hjs, rfl⟩ := Option.map_eq_some_iff.1 hv
    rw [Json.depthOfItems, depthOfItems, h.1 hj, ih h.2 hjs]

theorem depthOfFields_of_fieldValues? {fs : List (List Char × Raw)} {gs : List (String × Json)}
    (h : ∀ f ∈ fs, ∀ {j}, f.2.value? = some j → j.depth = f.2.depth)
    (hv : fieldValues? fs = some gs) : Json.depthOfFields gs = depthOfFields fs := by
  induction fs generalizing gs with
  | nil =>
    cases hv
    rfl
  | cons f fs ih =>
    obtain ⟨k, x⟩ := f
    rw [List.forall_mem_cons] at h
    obtain ⟨n, -, hv⟩ := Option.bind_eq_some_iff.1 hv
    obtain ⟨j, hj, hv⟩ := Option.bind_eq_some_iff.1 hv
    obtain ⟨gs, hgs, rfl⟩ := Option.map_eq_some_iff.1 hv
    rw [Json.depthOfFields, depthOfFields, h.1 hj, ih h.2 hgs]

/-- A value nests as deep as its text. -/
theorem depth_of_value? {x : Raw} {j : Json} (h : x.value? = some j) : j.depth = x.depth := by
  induction x using Raw.induction_parts generalizing j with
  | null | boolean =>
    cases h
    rw [depth, Json.depth]
  | number | string =>
    obtain ⟨_, -, rfl⟩ := Option.map_eq_some_iff.1 h
    rw [depth, Json.depth]
  | array xs ih =>
    obtain ⟨js, hjs, rfl⟩ := Option.map_eq_some_iff.1 h
    rw [depth, Json.depth, depthOfItems_of_itemValues? ih hjs]
  | object fs ih =>
    obtain ⟨gs, hgs, rfl⟩ := Option.map_eq_some_iff.1 h
    rw [depth, Json.depth, depthOfFields_of_fieldValues? ih hgs]

end Raw

/-! ### Lists and objects -/

theorem Raw.mapM_valueWithin?_eq_some_iff {d : Nat} {xs : List Raw} {js : List Json} :
    xs.mapM (valueWithin? d) = some js ↔ depthOfItems xs ≤ d ∧ itemValues? xs = some js := by
  induction xs generalizing js with
  | nil => simp [depthOfItems, itemValues?]
  | cons x xs ih =>
    rw [List.mapM_cons, depthOfItems, Nat.max_le, itemValues?]
    constructor
    · intro h
      obtain ⟨j, hj, h⟩ := Option.bind_eq_some_iff.1 h
      obtain ⟨js, hjs, h⟩ := Option.bind_eq_some_iff.1 h
      cases h
      obtain ⟨hd, hj⟩ := valueWithin?_eq_some_iff.1 hj
      obtain ⟨hds, hjs⟩ := ih.1 hjs
      exact ⟨⟨hd, hds⟩, by rw [hj, hjs]; rfl⟩
    · rintro ⟨⟨hd, hds⟩, h⟩
      obtain ⟨j, hj, h⟩ := Option.bind_eq_some_iff.1 h
      obtain ⟨js, hjs, rfl⟩ := Option.map_eq_some_iff.1 h
      rw [valueWithin?_eq_some_iff.2 ⟨hd, hj⟩, ih.2 ⟨hds, hjs⟩]
      rfl

/-- How a field of a value is gathered: with the last one first. -/
def rawStep (d : Nat) (fs : List (String × Json)) (n : String) (x : Raw) :
    Option (List (String × Json)) :=
  (x.valueWithin? d).map fun j => (n, j) :: fs

theorem foldFields_rawStep_eq_some_iff {d : Nat} {fs : List (List Char × Raw)}
    {read out : List (String × Json)} :
    foldFields (rawStep d) read fs = some out ↔ Raw.depthOfFields fs ≤ d ∧
      ∃ gs, Raw.fieldValues? fs = some gs ∧ out = gs.reverse ++ read := by
  induction fs generalizing read with
  | nil => simp [foldFields, Raw.depthOfFields, Raw.fieldValues?, eq_comm]
  | cons f fs ih =>
    obtain ⟨k, x⟩ := f
    rw [foldFields, List.foldlM_cons, Raw.depthOfFields, Nat.max_le, Raw.fieldValues?]
    constructor
    · intro h
      obtain ⟨mid, hm, h⟩ := Option.bind_eq_some_iff.1 h
      obtain ⟨n, hn, hm⟩ := Option.bind_eq_some_iff.1 hm
      obtain ⟨j, hj, rfl⟩ := Option.map_eq_some_iff.1 hm
      obtain ⟨hd, hj⟩ := Raw.valueWithin?_eq_some_iff.1 hj
      obtain ⟨hds, gs, hgs, rfl⟩ := ih.1 h
      exact ⟨⟨hd, hds⟩, (n, j) :: gs, by rw [hn, Option.bind_some, hj, hgs]; rfl, by simp⟩
    · rintro ⟨⟨hd, hds⟩, gs, h, rfl⟩
      obtain ⟨n, hn, h⟩ := Option.bind_eq_some_iff.1 h
      obtain ⟨j, hj, h⟩ := Option.bind_eq_some_iff.1 h
      obtain ⟨hs, hhs, rfl⟩ := Option.map_eq_some_iff.1 h
      refine Option.bind_eq_some_iff.2 ⟨(n, j) :: read, ?_, ih.2 ⟨hds, hs, hhs, by simp⟩⟩
      rw [hn, Option.bind_some, rawStep, Raw.valueWithin?_eq_some_iff.2 ⟨hd, hj⟩]
      rfl

theorem takesField_rawField {d : Nat} {x : Raw} (h : Takes (Reader.value d) x (x.valueWithin? d)) :
    TakesField (rawField (Reader.value d)) (rawStep d) x := by
  intro fs n
  exact Takes.map h _

/-! ### Values -/

/-- A value that holds no others is read as such. -/
theorem value_run_of_scalar {d : Nat} {s a u : List Char} {j : Json} (hs : blank s = a)
    (ha : (scalar? a).isSome = true) :
    (Reader.value d).run s = .ok (j, u) ↔ scalar? a = some (.ok (j, u)) := by
  subst hs
  rw [value_run_eq_ok_iff]
  constructor
  · rintro (⟨t, e, js, ht, -⟩ | ⟨t, e, fs, ht, -⟩ | h)
    · simp [ht, scalar?_bracket] at ha
    · simp [ht, scalar?_bracket] at ha
    · exact h
  · exact fun h => .inr (.inr h)

theorem takes_value_of_scalar {x : Raw} (hx : x.depth = 0)
    (h : ∀ {a r : List Char}, x.Spells a r → EndsValue r → (scalar? a).isSome = true ∧
      ∀ {j : Json} {u : List Char},
        scalar? a = some (.ok (j, u)) ↔ x.value? = some j ∧ u = r) (d : Nat) :
    Takes (Reader.value d) x (x.valueWithin? d) := by
  intro s a r u j hs ha hr
  obtain ⟨hsome, hiff⟩ := h ha hr
  rw [value_run_of_scalar (ha.blank_eq hs) hsome, hiff, Raw.valueWithin?_eq_some_iff, hx]
  simp

/-- A word stands for one value. -/
theorem takes_value_of_word {x : Raw} {i : Json} (hx : x.depth = 0) (hv : x.value? = some i)
    (h : ∀ {a r : List Char}, x.Spells a r → scalar? a = some (.ok (i, r))) (d : Nat) :
    Takes (Reader.value d) x (x.valueWithin? d) := by
  refine takes_value_of_scalar hx ?_ d
  intro a r ha _
  refine ⟨by rw [h ha]; rfl, ?_⟩
  intro j u
  rw [h ha, hv]
  simp [eq_comm]

theorem scalar?_of_isNumber {w : List Char} (hw : Decimal.isNumber w = true) (r : List Char) :
    scalar? (w ++ r) = some ((readNumber (w ++ r)).map fun x => (number x.1, x.2)) := by
  obtain ⟨c, t, rfl, hc⟩ := head_of_isNumber hw
  rw [List.cons_append]
  unfold scalar?
  split
  iterate 4
    · rename_i he
      cases he
      rcases hc with hc | hc <;> exact absurd hc (by decide)
  · rename_i he
    cases he
    rw [if_pos hc]
  · rename_i he
    cases he

theorem takes_value_number (w : List Char) (d : Nat) :
    Takes (Reader.value d) (.number w) ((Raw.number w).valueWithin? d) := by
  refine takes_value_of_scalar (by rw [Raw.depth]) ?_ d
  rintro a r ⟨hw, rfl⟩ hr
  have hs : scalar? (w ++ r) = some ((readNumber (w ++ r)).map fun x => (number x.1, x.2)) :=
    scalar?_of_isNumber hw r
  refine ⟨by rw [hs]; rfl, ?_⟩
  intro j u
  rw [hs, Option.some.injEq, map_eq_ok_iff, Raw.value?, Option.map_eq_some_iff]
  constructor
  · rintro ⟨⟨n, t⟩, hn, he⟩
    cases he
    obtain ⟨hq, rfl⟩ := (readNumber_append_iff hr hw).1 hn
    exact ⟨⟨n, hq, rfl⟩, rfl⟩
  · rintro ⟨⟨n, hn, rfl⟩, rfl⟩
    exact ⟨(n, u), (readNumber_append_iff hr hw).2 ⟨hn, rfl⟩, rfl⟩

theorem takes_value_string (w : List Char) (d : Nat) :
    Takes (Reader.value d) (.string w) ((Raw.string w).valueWithin? d) := by
  refine takes_value_of_scalar (by rw [Raw.depth]) ?_ d
  rintro a r ⟨hw, rfl⟩ -
  refine ⟨rfl, ?_⟩
  intro j u
  rw [scalar?, Option.some.injEq, map_eq_ok_iff, Raw.value?, Option.map_eq_some_iff]
  constructor
  · rintro ⟨⟨cs, t⟩, hcs, he⟩
    cases he
    obtain ⟨hq, rfl⟩ := (stringRest_append_iff hw).1 hcs
    exact ⟨⟨_, hq, rfl⟩, rfl⟩
  · rintro ⟨⟨n, hn, rfl⟩, rfl⟩
    exact ⟨(n.toList, u), (stringRest_append_iff hw).2 ⟨by rw [hn, n.ofList_toList], rfl⟩,
      by rw [n.ofList_toList]⟩

theorem takes_value_array {xs : List Raw}
    (h : ∀ x ∈ xs, ∀ d, Takes (Reader.value d) x (x.valueWithin? d)) (d : Nat) :
    Takes (Reader.value d) (.array xs) ((Raw.array xs).valueWithin? d) := by
  intro s a r u j hs ha hr
  obtain ⟨t, rfl⟩ := ha.exists_bracket
  have hb := ha.blank_eq hs
  rw [value_run_eq_ok_iff, Raw.valueWithin?_eq_some_iff, Raw.depth, Raw.value?,
    Option.map_eq_some_iff]
  constructor
  · rintro (⟨v, e, js, hv, rfl, hjs, rfl⟩ | ⟨v, e, fs, hv, -⟩ | hsc)
    · cases hb.symm.trans hv
      obtain ⟨hm, rfl⟩ := (items_run_iff (fun x hx => h x hx e) ha).1 hjs
      obtain ⟨hd, hm⟩ := Raw.mapM_valueWithin?_eq_some_iff.1 hm
      exact ⟨⟨Nat.succ_le_succ hd, js, hm, rfl⟩, rfl⟩
    · cases hb.symm.trans hv
    · simp [hb, scalar?_bracket] at hsc
  · rintro ⟨⟨hd, js, hm, rfl⟩, rfl⟩
    obtain ⟨e, rfl⟩ : ∃ e, d = e + 1 := ⟨d - 1, by omega⟩
    refine .inl ⟨t, e, js, hb, rfl, (items_run_iff (fun x hx => h x hx e) ha).2 ⟨?_, rfl⟩, rfl⟩
    exact Raw.mapM_valueWithin?_eq_some_iff.2 ⟨Nat.le_of_succ_le_succ hd, hm⟩

theorem takes_value_object {fs : List (List Char × Raw)}
    (h : ∀ f ∈ fs, ∀ d, Takes (Reader.value d) f.2 (f.2.valueWithin? d)) (d : Nat) :
    Takes (Reader.value d) (.object fs) ((Raw.object fs).valueWithin? d) := by
  intro s a r u j hs ha hr
  obtain ⟨t, rfl⟩ := ha.exists_brace
  have hb := ha.blank_eq hs
  have hread : ∀ {e out v}, fields (rawField (Reader.value e)) [] t = .ok (out, v) ↔
      foldFields (rawStep e) [] fs = some out ∧ v = r := fun {e} =>
    fields_run_iff (fun f hf => takesField_rawField (h f hf e)) ha
  rw [value_run_eq_ok_iff, Raw.valueWithin?_eq_some_iff, Raw.depth, Raw.value?,
    Option.map_eq_some_iff]
  constructor
  · rintro (⟨v, e, js, hv, -⟩ | ⟨v, e, gs, hv, rfl, hgs, rfl⟩ | hsc)
    · cases hb.symm.trans hv
    · cases hb.symm.trans hv
      rw [← gs.reverse_reverse, ← fields_rawField_eq_ok_iff, hread] at hgs
      obtain ⟨hd, hs, hhs, he⟩ := foldFields_rawStep_eq_some_iff.1 hgs.1
      have he : hs = gs := by simpa using he.symm
      exact ⟨⟨Nat.succ_le_succ hd, gs, he ▸ hhs, rfl⟩, hgs.2⟩
    · simp [hb, scalar?_bracket] at hsc
  · rintro ⟨⟨hd, gs, hgs, rfl⟩, rfl⟩
    obtain ⟨e, rfl⟩ : ∃ e, d = e + 1 := ⟨d - 1, by omega⟩
    refine .inr (.inl ⟨t, e, gs, hb, rfl, ?_, rfl⟩)
    rw [← gs.reverse_reverse, ← fields_rawField_eq_ok_iff, hread]
    exact ⟨foldFields_rawStep_eq_some_iff.2 ⟨Nat.le_of_succ_le_succ hd, gs, hgs, by simp⟩, rfl⟩

/-- **A JSON text is read as its value**, if it nests no deeper than the reader was told. -/
theorem takes_value (x : Raw) (d : Nat) : Takes (Reader.value d) x (x.valueWithin? d) := by
  induction x using Raw.induction_parts generalizing d with
  | null =>
    exact takes_value_of_word (by rw [Raw.depth]) (by rw [Raw.value?]) (by rintro a r rfl; rfl) d
  | boolean b =>
    cases b <;>
      exact takes_value_of_word (by rw [Raw.depth]) (by rw [Raw.value?]) (by rintro a r rfl; rfl) d
  | number w => exact takes_value_number w d
  | string w => exact takes_value_string w d
  | array xs ih => exact takes_value_array ih d
  | object fs ih => exact takes_value_object ih d

end NativeTypes.Json
