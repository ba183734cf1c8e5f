import NativeTypes.Proofs.Json.Values

/-! # Punctuation

What stands between values is found after any blanks, and a numeral is known by the character it
starts with. -/

namespace NativeTypes.Json

/-- A numeral starts with a minus sign or a digit. -/
theorem head_of_isNumber {s : List Char} (h : Decimal.isNumber s = true) :
    ∃ c t, s = c :: t ∧ (c = '-' ∨ c.isDigit = true) := by
  cases s with
  | nil => simp [Decimal.isNumber, Decimal.afterMinus, Decimal.afterInteger,
      Decimal.afterDigits] at h
  | cons c t =>
    refine ⟨c, t, rfl, ?_⟩
    by_cases hm : c = '-'
    · exact .inl hm
    by_cases h0 : c = '0'
    · subst h0
      exact .inr rfl
    by_cases hd : c.isDigit = true
    · exact .inr hd
    · simp [Decimal.isNumber, Decimal.afterMinus, hm, Decimal.afterInteger, h0,
        Decimal.afterDigits, hd] at h

theorem firstItem_close {s r : List Char} (h : Blanks s (']' :: r)) :
    firstItem s = .ok (.close r) := by
  simp only [firstItem, h.blank_eq_cons rfl]

theorem afterItem_close {s r : List Char} (h : Blanks s (']' :: r)) :
    afterItem s = .ok (.close r) := by
  simp only [afterItem, h.blank_eq_cons rfl]

theorem firstField_close {s r : List Char} (h : Blanks s ('}' :: r)) :
    firstField s = .ok (.close r) := by
  simp only [firstField, h.blank_eq_cons rfl]

theorem firstField_more {s r : List Char} (h : Blanks s ('"' :: r)) :
    firstField s = .ok (.more r) := by
  simp only [firstField, h.blank_eq_cons rfl]

theorem afterField_close {s r : List Char} (h : Blanks s ('}' :: r)) :
    afterField s = .ok (.close r) := by
  simp only [afterField, h.blank_eq_cons rfl]

theorem afterField_more {s t r : List Char} (h : Blanks s (',' :: t)) (ht : Blanks t ('"' :: r)) :
    afterField s = .ok (.more r) := by
  simp only [afterField, h.blank_eq_cons rfl, ht.blank_eq_cons rfl]

theorem colon_of_blanks {s t : List Char} (h : Blanks s (':' :: t)) : colon s = .ok t := by
  simp only [colon, h.blank_eq_cons rfl]

end NativeTypes.Json
