import NativeTypes.Proofs.Json.Raw.Numerals
import NativeTypes.Proofs.Json.Raw.Strings
import NativeTypes.Proofs.Json.Values

/-! # Tokens that are read or skipped

What is taken off the front of a text as a number, a string or a word is a spelling of one
(`exists_raw_of_scalar?`, `exists_raw_of_skipScalar`).

A numeral is taken off in parts, and where one part ends the next may begin. So it has to be said of
each part that it is taken off in the same way if the text ends after it (`TakesOff`): then the
characters that were taken off are a numeral by themselves (`exists_numeral`). -/

namespace NativeTypes.Json

/-! ### Numerals -/

/-- A function that takes a part off the front of a text, and takes the same part off where the text
ends after what is left. -/
structure TakesOff (f : List Char → Option (List Char)) : Prop where
  suffix : ∀ {s t}, f s = some t → t <:+ s
  cancel : ∀ {s t q}, f (s ++ q) = some (t ++ q) → f s = some t

theorem TakesOff.bind {f g : List Char → Option (List Char)} (hf : TakesOff f) (hg : TakesOff g) :
    TakesOff fun s => (f s).bind g where
  suffix h := by
    obtain ⟨u, hu, ht⟩ := Option.bind_eq_some_iff.1 h
    exact (hg.suffix ht).trans (hf.suffix hu)
  cancel {s t q} h := by
    obtain ⟨u, hu, ht⟩ := Option.bind_eq_some_iff.1 h
    obtain ⟨p, rfl⟩ := hg.suffix ht
    rw [← List.append_assoc] at hu ht
    exact Option.bind_eq_some_iff.2 ⟨p ++ t, hf.cancel hu, hg.cancel ht⟩

theorem eq_nil_of_append_suffix {t q : List Char} (h : t ++ q <:+ q) : t = [] := by
  have := h.length_le
  rw [List.length_append] at this
  exact List.eq_nil_of_length_eq_zero (by omega)

theorem takesOff_some : TakesOff some where
  suffix h := Option.some.inj h ▸ List.suffix_refl _
  cancel h := congrArg some (List.append_cancel_right (Option.some.inj h))

theorem takesOff_none : TakesOff fun _ => none where
  suffix h := by cases h
  cancel h := by cases h

/-- A part that may be missing. -/
theorem TakesOff.of_optional {f : List Char → Option (List Char)} (hnil : f [] = some [])
    (hcons : ∀ c, (TakesOff fun s => f (c :: s)) ∨ ∀ s, f (c :: s) = some (c :: s)) :
    TakesOff f := by
  have suffix : ∀ {s t}, f s = some t → t <:+ s := by
    intro s t h
    cases s with
    | nil => exact Option.some.inj (hnil.symm.trans h) ▸ List.suffix_refl _
    | cons c s =>
      rcases hcons c with hc | hc
      · exact (hc.suffix h).trans (List.suffix_cons c s)
      · exact Option.some.inj ((hc s).symm.trans h) ▸ List.suffix_refl _
  refine ⟨suffix, ?_⟩
  intro s t q h
  cases s with
  | nil => rw [eq_nil_of_append_suffix (suffix h), hnil]
  | cons c s =>
    rcases hcons c with hc | hc
    · exact hc.cancel h
    · rw [hc]
      exact takesOff_some.cancel ((hc (s ++ q)).symm.trans h)

/-- A part that may not be missing. -/
theorem TakesOff.of_required {f : List Char → Option (List Char)} (hnil : f [] = none)
    (hcons : ∀ c, TakesOff fun s => f (c :: s)) : TakesOff f where
  suffix {s t} h := by
    cases s with
    | nil => exact absurd (hnil.symm.trans h) (by simp)
    | cons c s => exact ((hcons c).suffix h).trans (List.suffix_cons c s)
  cancel {s t q} h := by
    cases s with
    | nil =>
      rw [List.nil_append] at h
      cases q with
      | nil => exact absurd (hnil.symm.trans h) (by simp)
      | cons c q =>
        have := ((hcons c).suffix h).length_le
        rw [List.length_append, List.length_cons] at this
        omega
    | cons c s => exact (hcons c).cancel h

theorem takesOff_dropWhile (p : Char → Bool) : TakesOff fun s => some (s.dropWhile p) where
  suffix h := Option.some.inj h ▸ List.dropWhile_suffix p
  cancel {s t q} h := by
    have h : (s ++ q).dropWhile p = t ++ q := Option.some.inj h
    rw [List.dropWhile_append] at h
    split at h
    · rename_i hs
      have ht : t ++ q <:+ q := h ▸ List.dropWhile_suffix p
      rw [List.isEmpty_iff.1 hs, eq_nil_of_append_suffix ht]
    · rw [List.append_cancel_right h]

open Decimal in
theorem takesOff_digits (c : Char) : TakesOff fun s => afterDigits (c :: s) := by
  by_cases hc : c.isDigit = true
  · simpa [afterDigits, hc] using takesOff_dropWhile Char.isDigit
  · simpa [afterDigits, hc] using takesOff_none

theorem takesOff_afterDigits : TakesOff Decimal.afterDigits :=
  .of_required rfl takesOff_digits

theorem takesOff_afterSign : TakesOff fun s => some (Decimal.afterSign s) := by
  refine .of_optional rfl fun c => ?_
  by_cases hp : c = '+'
  · subst hp
    exact .inl takesOff_some
  · by_cases hm : c = '-'
    · subst hm
      exact .inl takesOff_some
    · exact .inr fun s => by simp [Decimal.afterSign, hp, hm]

theorem takesOff_afterMinus : TakesOff fun s => some (Decimal.afterMinus s) := by
  refine .of_optional rfl fun c => ?_
  by_cases hm : c = '-'
  · subst hm
    exact .inl takesOff_some
  · exact .inr fun s => by simp [Decimal.afterMinus, hm]

theorem takesOff_afterInteger : TakesOff Decimal.afterInteger := by
  refine .of_required rfl fun c => ?_
  by_cases h0 : c = '0'
  · subst h0
    exact takesOff_some
  · simpa [Decimal.afterInteger, h0] using takesOff_digits c

theorem takesOff_afterFraction : TakesOff Decimal.afterFraction := by
  refine .of_optional rfl fun c => ?_
  by_cases hd : c = '.'
  · subst hd
    exact .inl takesOff_afterDigits
  · exact .inr fun s => by simp [Decimal.afterFraction, hd]

theorem takesOff_afterExponent : TakesOff Decimal.afterExponent := by
  have signed : TakesOff fun s => Decimal.afterDigits (Decimal.afterSign s) :=
    takesOff_afterSign.bind takesOff_afterDigits
  refine .of_optional rfl fun c => ?_
  by_cases he : c = 'e'
  · subst he
    exact .inl signed
  · by_cases hE : c = 'E'
    · subst hE
      exact .inl signed
    · exact .inr fun s => by simp [Decimal.afterExponent, he, hE]

/-- **What is taken off as a numeral is one.** -/
theorem exists_numeral {s r : List Char} (h : afterNumber s = some r) :
    (∃ w, Decimal.isNumber w = true ∧ s = w ++ r) := by
  have ht : TakesOff afterNumber :=
    ((takesOff_afterMinus.bind takesOff_afterInteger).bind takesOff_afterFraction).bind
      takesOff_afterExponent
  obtain ⟨w, rfl⟩ := ht.suffix h
  exact ⟨w, beq_of_eq (ht.cancel (t := []) h), rfl⟩

theorem afterUnsigned_of_skipUnsigned {s u : List Char} (h : skipUnsigned s = .ok u) :
    ((Decimal.afterInteger s).bind Decimal.afterFraction).bind Decimal.afterExponent = some u := by
  rw [Option.bind_assoc]
  unfold skipUnsigned at h
  split at h
  · split at h
    · cases h
    · exact skipFraction_eq_ok_iff.1 h
  · rename_i h0
    have hi : Decimal.afterInteger s = Decimal.afterDigits s := by
      unfold Decimal.afterInteger
      split
      · exact absurd rfl (h0 _)
      · rfl
    split at h
    · cases h
    · rename_i t ht
      rw [hi, skipDigits_eq_ok_iff.1 ht]
      exact skipFraction_eq_ok_iff.1 h

/-! ### Strings -/

theorem hexDigit_of_hexValue? {c : Char} {n : Nat} (h : hexValue? c = some n) : HexDigit c n := by
  have hall : ∀ k < 128, ∀ m ∈ hexValue? (Char.ofNat k), HexDigit (Char.ofNat k) m := by
    unfold HexDigit
    decide
  have small : ∀ {d : Char}, d.toNat < 128 → c ≤ d → c.toNat < 128 := fun hd h =>
    Nat.lt_of_le_of_lt (UInt32.le_iff_toNat_le.1 h) hd
  have hc : c.toNat < 128 := by
    unfold hexValue? at h
    split at h
    · rename_i hc
      exact small (by decide) hc.2
    · split at h
      · rename_i hc
        exact small (by decide) hc.2
      · split at h
        · rename_i hc
          exact small (by decide) hc.2
        · cases h
  simpa using hall c.toNat hc n (by simpa using h)

theorem spellsUnit_of_hexUnit {n : Nat} {s r : List Char} (h : hexUnit s = .ok (n, r)) :
    SpellsUnit n s r := by
  unfold hexUnit at h
  split at h
  · rename_i x hx
    cases h
    unfold hexUnit? at hx
    split at hx
    · rename_i a b c d t
      simp only [Option.bind_eq_bind, Option.bind_eq_some_iff, Option.pure_def,
        Option.some.injEq] at hx
      obtain ⟨i, hi, j, hj, k, hk, l, hl, he⟩ := hx
      cases he
      obtain ⟨hi, ha⟩ := hexDigit_of_hexValue? hi
      obtain ⟨hj, hb⟩ := hexDigit_of_hexValue? hj
      obtain ⟨hk, hc⟩ := hexDigit_of_hexValue? hk
      obtain ⟨hl, hd⟩ := hexDigit_of_hexValue? hl
      refine ⟨a, b, c, d, rfl, ⟨by omega, ?_⟩, ⟨by omega, ?_⟩, ⟨by omega, ?_⟩, ⟨by omega, ?_⟩⟩
      · rwa [show (((i * 16 + j) * 16 + k) * 16 + l) / 4096 = i by omega]
      · rwa [show (((i * 16 + j) * 16 + k) * 16 + l) / 256 % 16 = j by omega]
      · rwa [show (((i * 16 + j) * 16 + k) * 16 + l) / 16 % 16 = k by omega]
      · rwa [show (((i * 16 + j) * 16 + k) * 16 + l) % 16 = l by omega]
    · cases hx
  · split at h <;> cases h

/-- An escape that is skipped is spelled well. -/
theorem quotable_escape {s t : List Char} (h : skipEscape s = .ok t) :
    ∃ v, s = v ++ t ∧ ∀ w, Quotable w → Quotable ('\\' :: (v ++ w)) := by
  unfold skipEscape at h
  split at h
  · cases h
  · rename_i r
    obtain ⟨⟨n, u⟩, hu, rfl⟩ := map_eq_ok h
    obtain ⟨a, b, c, d, rfl, ha, hb, hc, hd⟩ := spellsUnit_of_hexUnit hu
    exact ⟨['u', a, b, c, d], rfl, fun w hw => .unit ⟨a, b, c, d, rfl, ha, hb, hc, hd⟩ hw⟩
  · rename_i e r _
    split at h
    · rename_i he
      cases h
      have hall : ∀ e ∈ ['"', '\\', '/', 'b', 'f', 'n', 'r', 't'], ∃ c, (e, c) ∈ shortEscapes := by
        simp [shortEscapes]
      obtain ⟨c, hc⟩ := hall e he
      exact ⟨[e], rfl, fun w hw => .short hc hw⟩
    · cases h

/-- **A string that is skipped is spelled well.** -/
theorem exists_quotable {s r : List Char} (h : skipString s = .ok r) :
    ∃ w, Quotable w ∧ s = w ++ '"' :: r := by
  fun_induction skipString s with
  | case1 | case3 | case5 => cases h
  | case2 t =>
    cases h
    exact ⟨[], .nil, rfl⟩
  | case4 s t he ih =>
    obtain ⟨w, hw, rfl⟩ := ih h
    obtain ⟨v, rfl, hv⟩ := quotable_escape he
    exact ⟨'\\' :: (v ++ w), hv w hw, by simp⟩
  | case6 c s hq hb hc ih =>
    obtain ⟨w, hw, rfl⟩ := ih h
    exact ⟨c :: w, .plain (Char.not_lt.1 hc) hq hb hw, rfl⟩

theorem skipEscape_unit {s t : List Char} {n : Nat} (h : hexUnit s = .ok (n, t)) :
    skipEscape ('u' :: s) = .ok t := by
  rw [skipEscape, h]
  rfl

/-- An escape that makes a character can be skipped; it is one escape, or two. -/
theorem skipString_of_escape {s t : List Char} {c : Char} (h : escape s = .ok (c, t)) :
    skipString ('\\' :: s) = skipString t := by
  unfold escape at h
  split at h
  · cases h
  iterate 8
    · cases h
      exact skipString_escape rfl
  · simp only [hexEscape] at h
    split at h
    · cases h
    · rename_i n u hu
      rw [skipString_escape (skipEscape_unit hu)]
      split at h
      · cases h
      · split at h
        · unfold secondSurrogate at h
          split at h
          · cases h
          · cases h
          · split at h
            · cases h
            · rename_i hv
              split at h
              · obtain ⟨-, rfl⟩ := Prod.mk.inj (Except.ok.inj h)
                exact skipString_escape (skipEscape_unit hv)
              · cases h
          · cases h
          · cases h
        · cases h
          rfl
  · cases h

/-- A string that is read can be skipped. -/
theorem skipString_of_stringRest {s r cs : List Char} (h : stringRest s = .ok (cs, r)) :
    skipString s = .ok r := by
  fun_induction stringRest s generalizing cs r with
  | case1 | case3 | case4 | case6 | case7 => cases h
  | case2 t =>
    cases h
    rw [skipString]
  | case5 s c t he ds u hu ih =>
    cases h
    rw [skipString_of_escape he, ih hu]
  | case8 c s hq hb hc ds u hu ih =>
    cases h
    rw [skipString, if_neg hc, ih hu]
    · exact hq
    · exact hb

/-! ### Values that hold no others -/

theorem eq_append_of_word {w s r : List Char} (h : word w s = .ok r) : s = w ++ r := by
  induction w generalizing s with
  | nil =>
    cases h
    rfl
  | cons c w ih =>
    cases s with
    | nil => cases h
    | cons d s =>
      simp only [word] at h
      split at h
      · rename_i hc
        rw [← hc, ih h]
        rfl
      · cases h

theorem exists_raw_of_skipUnsigned {s r : List Char} (h : skipUnsigned s = .ok r) :
    (∃ x : Raw, x.Spells ('-' :: s) r) ∧ (startsWithDigit s = true → ∃ x : Raw, x.Spells s r) := by
  have ha := afterUnsigned_of_skipUnsigned h
  constructor
  · obtain ⟨w, hw, hs⟩ := exists_numeral (s := '-' :: s) ha
    exact ⟨.number w, hw, hs⟩
  · intro hd
    have hm : Decimal.afterMinus s = s := by
      unfold Decimal.afterMinus
      split
      · cases hd
      · rfl
    obtain ⟨w, hw, hs⟩ := exists_numeral (s := s) (by rwa [afterNumber, hm])
    exact ⟨.number w, hw, hs⟩

/-- What is skipped as a value that holds no others is spelled well. -/
theorem exists_raw_of_skipScalar {s r : List Char} (h : skipScalar s = .ok r) :
    ∃ x : Raw, x.Spells s r := by
  unfold skipScalar at h
  split at h
  · exact ⟨.null, congrArg _ (eq_append_of_word h)⟩
  · exact ⟨.boolean true, congrArg _ (eq_append_of_word h)⟩
  · exact ⟨.boolean false, congrArg _ (eq_append_of_word h)⟩
  · obtain ⟨w, hw, hs⟩ := exists_quotable h
    exact ⟨.string w, hw, congrArg _ hs⟩
  · exact (exists_raw_of_skipUnsigned h).1
  · split at h
    · rename_i hd
      exact (exists_raw_of_skipUnsigned h).2 hd
    · cases h

theorem exists_raw_of_scalar? {s r : List Char} {j : Json} (h : scalar? s = some (.ok (j, r))) :
    ∃ x : Raw, x.Spells s r := by
  unfold scalar? at h
  split at h
  iterate 3
    · obtain ⟨t, ht, he⟩ := map_eq_ok (Option.some.inj h)
      cases he
      exact exists_raw_of_skipScalar ht
  · obtain ⟨⟨cs, t⟩, ht, he⟩ := map_eq_ok (Option.some.inj h)
    cases he
    exact exists_raw_of_skipScalar (skipString_of_stringRest ht)
  · split at h
    · obtain ⟨⟨n, t⟩, ht, he⟩ := map_eq_ok (Option.some.inj h)
      cases he
      obtain ⟨w, hw, hs⟩ := exists_numeral (afterNumber_of_readNumber ht)
      exact ⟨.number w, hw, hs⟩
    · cases h
  · cases h

end NativeTypes.Json
