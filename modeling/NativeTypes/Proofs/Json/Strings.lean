import NativeTypes.Proofs.Json.Grammar

/-! # Reading strings

`stringRest` reads back every spelling of the characters of a string
(`stringRest_of_spellsChars`). -/

namespace NativeTypes.Json

theorem hexValue?_of_hexDigit {c : Char} {n : Nat} (h : HexDigit c n) : hexValue? c = some n := by
  obtain ⟨hn, hc⟩ := h
  have hall : ∀ m < 16, hexValue? (Nat.digitChar m) = some m ∧
      hexValue? (Nat.digitChar m).toUpper = some m := by decide
  rcases hc with rfl | rfl
  · exact (hall n hn).1
  · exact (hall n hn).2

theorem hexUnit_of_spellsUnit {n : Nat} {s r : List Char} (h : SpellsUnit n s r) :
    hexUnit s = .ok (n, r) := by
  obtain ⟨a, b, c, d, rfl, ha, hb, hc, hd⟩ := h
  have hn : ((n / 4096 * 16 + n / 256 % 16) * 16 + n / 16 % 16) * 16 + n % 16 = n := by omega
  simp [hexUnit, hexUnit?, hexValue?_of_hexDigit ha, hexValue?_of_hexDigit hb,
    hexValue?_of_hexDigit hc, hexValue?_of_hexDigit hd, hn]

/-- The number of a character is not that of a surrogate. -/
theorem not_surrogate (c : Char) : c.toNat < 0xD800 ∨ 0xDFFF < c.toNat := by
  rcases c.valid with h | h
  · exact .inl h
  · exact .inr h.1

/-- An escape that spells a character is read as the character. -/
theorem escape_of_spellsChar {c : Char} {s r : List Char} (h : SpellsChar c ('\\' :: s) r) :
    escape s = .ok (c, r) := by
  cases h with
  | plain h hq hb => exact absurd rfl hb
  | short h =>
    simp only [shortEscapes, List.mem_cons, Prod.mk.injEq, List.not_mem_nil, or_false] at h
    rcases h with ⟨rfl, rfl⟩ | ⟨rfl, rfl⟩ | ⟨rfl, rfl⟩ | ⟨rfl, rfl⟩ | ⟨rfl, rfl⟩ | ⟨rfl, rfl⟩ |
      ⟨rfl, rfl⟩ | ⟨rfl, rfl⟩ <;> rfl
  | unit h =>
    have hc := not_surrogate c
    rw [escape, hexEscape, hexUnit_of_spellsUnit h]
    simp only
    rw [if_neg (by omega), if_neg (by omega), Char.ofNat_toNat]
  | surrogates hh hl hhigh hlow hc =>
    rename_i high low s t
    have hn : (high - 0xD800) * 0x400 + (low - 0xDC00) + 0x10000 = c.toNat := by omega
    have hp : pairedSurrogates high low = c := by rw [pairedSurrogates, hn, Char.ofNat_toNat]
    rw [escape, hexEscape, hexUnit_of_spellsUnit hh]
    simp only
    rw [if_neg (by omega), if_pos hhigh, secondSurrogate, hexUnit_of_spellsUnit hl]
    simp only
    rw [if_pos hlow, hp]

theorem stringRest_escape {s t r cs : List Char} {c : Char} (h : escape s = .ok (c, t))
    (ht : stringRest t = .ok (cs, r)) : stringRest ('\\' :: s) = .ok (c :: cs, r) := by
  rw [stringRest]
  split
  · rename_i he
    simp [h] at he
  · rename_i he
    rw [h] at he
    cases he
    rw [ht]

theorem stringRest_plain {c : Char} {s r cs : List Char} (h : ' ' ≤ c) (hq : c ≠ '"')
    (hb : c ≠ '\\') (hs : stringRest s = .ok (cs, r)) : stringRest (c :: s) = .ok (c :: cs, r) := by
  rw [stringRest]
  · rw [if_neg (Char.not_lt.2 h), hs]
  · exact hq
  · exact hb

/-- **The characters of a string are read back from every spelling.** -/
theorem stringRest_of_spellsChars {cs s r : List Char} (h : SpellsChars cs s r) :
    stringRest s = .ok (cs, r) := by
  induction cs generalizing s with
  | nil =>
    cases h
    rw [stringRest]
  | cons c cs ih =>
    obtain ⟨t, hc, ht⟩ := h
    have hr := ih ht
    -- a plain character is read by itself, and every other spelling is an escape
    cases hc with
    | plain h hq hb => exact stringRest_plain h hq hb hr
    | short h => exact stringRest_escape (escape_of_spellsChar (.short h)) hr
    | unit h => exact stringRest_escape (escape_of_spellsChar (.unit h)) hr
    | surrogates hh hl hhigh hlow hn =>
      exact stringRest_escape (escape_of_spellsChar (.surrogates hh hl hhigh hlow hn)) hr

end NativeTypes.Json
