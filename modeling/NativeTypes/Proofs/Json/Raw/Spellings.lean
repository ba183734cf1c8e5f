import NativeTypes.Proofs.Json.Raw.Tokens

/-! # The spellings of a value

Every spelling of a value is a JSON text that has the value (`exists_raw_of_spells`). -/

namespace NativeTypes.Json

theorem exists_quotes_of_spellsString {n : String} {s r : List Char} (h : SpellsString n s r) :
    ∃ w, Quotes w s r ∧ unquote? w = some n := by
  obtain ⟨t, rfl, ht⟩ := h
  have hread := stringRest_of_spellsChars ht
  obtain ⟨w, hw, rfl⟩ := exists_quotable (skipString_of_stringRest hread)
  have hq := ((stringRest_append_iff hw).1 hread).1
  exact ⟨w, ⟨hw, rfl⟩, by rw [hq, n.ofList_toList]⟩

mutual

/-- **A spelling of a value is a JSON text that has the value.** -/
theorem exists_raw_of_spells : ∀ (j : Json) {s r : List Char}, Spells j s r →
    ∃ x : Raw, x.Spells s r ∧ x.value? = some j
  | .null, s, r, h => ⟨.null, h, by rw [Raw.value?]⟩
  | .boolean true, s, r, h => ⟨.boolean true, h, by rw [Raw.value?]⟩
  | .boolean false, s, r, h => ⟨.boolean false, h, by rw [Raw.value?]⟩
  | .number n, s, r, h => by
    obtain ⟨w, rfl, hw, hn, -⟩ := h
    refine ⟨.number w, ⟨hw, rfl⟩, ?_⟩
    rw [Raw.value?, numberOf?, hn]
    rfl
  | .string n, s, r, h => by
    obtain ⟨w, hw, hn⟩ := exists_quotes_of_spellsString h
    exact ⟨.string w, hw, by rw [Raw.value?, hn]; rfl⟩
  | .array [], s, r, h => ⟨.array [], h, rfl⟩
  | .array (j :: js), s, r, h => by
    obtain ⟨t, a, b, rfl, hta, hj, hjs⟩ := h
    obtain ⟨x, hx, hv⟩ := exists_raw_of_spells j hj
    obtain ⟨xs, hxs, hvs⟩ := exists_raw_of_moreItems js hjs
    exact ⟨.array (x :: xs), ⟨t, a, b, rfl, hta, hx, hxs⟩,
      by rw [Raw.value?, Raw.itemValues?, hv, hvs]; rfl⟩
  | .object [], s, r, h => ⟨.object [], h, rfl⟩
  | .object ((k, j) :: fs), s, r, h => by
    obtain ⟨t, a, b, rfl, hta, ⟨a', u, b', hk, hau, hub, hj⟩, hfs⟩ := h
    obtain ⟨w, hw, hq⟩ := exists_quotes_of_spellsString hk
    obtain ⟨x, hx, hv⟩ := exists_raw_of_spells j hj
    obtain ⟨gs, hgs, hvs⟩ := exists_raw_of_moreFields fs hfs
    exact ⟨.object ((w, x) :: gs), ⟨t, a, b, rfl, hta, ⟨a', u, b', hw, hau, hub, hx⟩, hgs⟩,
      by rw [Raw.value?, Raw.fieldValues?, hq, Option.bind_some, hv, hvs]; rfl⟩

/-- The items that follow. -/
theorem exists_raw_of_moreItems : ∀ (js : List Json) {s r : List Char}, SpellsMoreItems js s r →
    ∃ xs, Raw.SpellsMoreItems xs s r ∧ Raw.itemValues? xs = some js
  | [], s, r, h => ⟨[], h, rfl⟩
  | j :: js, s, r, h => by
    obtain ⟨t, a, b, hst, hta, hj, hjs⟩ := h
    obtain ⟨x, hx, hv⟩ := exists_raw_of_spells j hj
    obtain ⟨xs, hxs, hvs⟩ := exists_raw_of_moreItems js hjs
    exact ⟨x :: xs, ⟨t, a, b, hst, hta, hx, hxs⟩, by rw [Raw.itemValues?, hv, hvs]; rfl⟩

/-- The fields that follow. -/
theorem exists_raw_of_moreFields : ∀ (fs : List (String × Json)) {s r : List Char},
    SpellsMoreFields fs s r → ∃ gs, Raw.SpellsMoreFields gs s r ∧
      Raw.fieldValues? gs = some fs
  | [], s, r, h => ⟨[], h, rfl⟩
  | (k, j) :: fs, s, r, h => by
    obtain ⟨t, a, b, hst, hta, ⟨a', u, b', hk, hau, hub, hj⟩, hfs⟩ := h
    obtain ⟨w, hw, hq⟩ := exists_quotes_of_spellsString hk
    obtain ⟨x, hx, hv⟩ := exists_raw_of_spells j hj
    obtain ⟨gs, hgs, hvs⟩ := exists_raw_of_moreFields fs hfs
    exact ⟨(w, x) :: gs, ⟨t, a, b, hst, hta, ⟨a', u, b', hw, hau, hub, hx⟩, hgs⟩,
      by rw [Raw.fieldValues?, hq, Option.bind_some, hv, hvs]; rfl⟩

end

/-- **A text of a value is a JSON text that has the value.** -/
theorem IsText.exists_raw {j : Json} {s : String} (h : IsText j s) :
    ∃ x : Raw, x.IsText s ∧ x.value? = some j := by
  obtain ⟨a, b, ha, hj, hb⟩ := h
  obtain ⟨x, hx, hv⟩ := exists_raw_of_spells j hj
  exact ⟨x, ⟨a, b, ha, hx, hb⟩, hv⟩

end NativeTypes.Json
