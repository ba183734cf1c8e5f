import NativeTypes.Json.Skip
import NativeTypes.Proofs.Json.Raw
import NativeTypes.Proofs.Json.Punctuation

/-! # Numerals inside a text

What is read of a numeral depends on it alone, and not on what comes after it, as long as a value
may end there (`EndsValue`): it is read as the number that it makes, and not at all where it makes
none (`readNumber_append_iff`). Where a numeral ends is said by the functions of `Decimal` that take
its parts off a text (`afterNumber`). A number that is read and a number that is skipped both end
there (`afterNumber_of_readNumber`, `skipScalar_numeral`). -/

namespace NativeTypes.Json

/-- A value may end here: at the end of the text, or before a blank or a punctuation mark. -/
def EndsValue (r : List Char) : Prop :=
  ∀ c t, r = c :: t → c ∈ [' ', '\n', '\r', '\t', ',', ']', '}']

theorem endsValue_nil : EndsValue [] := by
  rintro c t ⟨⟩

theorem EndsValue.endsNumber {r : List Char} (h : EndsValue r) : EndsNumber r := by
  rintro c t rfl
  have hall : ∀ c ∈ [' ', '\n', '\r', '\t', ',', ']', '}'],
      c.isDigit = false ∧ c ≠ '.' ∧ c ≠ 'e' ∧ c ≠ 'E' := by simp [Char.isDigit]
  exact hall c (h c t rfl)

theorem EndsValue.ne_sign {r t : List Char} (h : EndsValue r) : r ≠ '+' :: t ∧ r ≠ '-' :: t := by
  constructor <;>
  · rintro rfl
    exact absurd (h _ t rfl) (by decide)

theorem Blanks.endsValue {s t : List Char} (h : Blanks s t) (ht : EndsValue t) : EndsValue s := by
  obtain ⟨w, rfl, hw⟩ := h
  cases w with
  | nil => exact ht
  | cons c w =>
    rintro d u hd
    cases hd
    have hall : ∀ c ∈ [' ', '\n', '\r', '\t'], c ∈ [' ', '\n', '\r', '\t', ',', ']', '}'] := by
      simp
    exact hall c (hw c List.mem_cons_self)

/-! ### Where a numeral ends -/

section Ends

open Decimal

variable {r : List Char} (hr : EndsValue r)
include hr

theorem afterDigits_append (s : List Char) :
    afterDigits (s ++ r) = (afterDigits s).map (· ++ r) := by
  cases s with
  | nil =>
    cases r with
    | nil => rfl
    | cons c t => simp [afterDigits, (hr.endsNumber c t rfl).1]
  | cons c s =>
    have hd : (s ++ r).dropWhile Char.isDigit = s.dropWhile Char.isDigit ++ r :=
      digits_append hr.endsNumber s
    by_cases hc : c.isDigit = true <;> simp [afterDigits, hc, hd]

theorem afterSign_append (s : List Char) : afterSign (s ++ r) = afterSign s ++ r := by
  cases s with
  | nil =>
    rw [List.nil_append]
    unfold afterSign
    split
    · exact absurd rfl hr.ne_sign.1
    · exact absurd rfl hr.ne_sign.2
    · rfl
  | cons c s =>
    rw [List.cons_append]
    by_cases hp : c = '+'
    · subst hp
      rfl
    · by_cases hm : c = '-'
      · subst hm
        rfl
      · simp [afterSign, hp, hm]

theorem afterExponent_append (s : List Char) :
    afterExponent (s ++ r) = (afterExponent s).map (· ++ r) := by
  cases s with
  | nil =>
    rw [List.nil_append]
    unfold afterExponent
    split
    · exact absurd rfl (hr.endsNumber _ _ rfl).2.2.1
    · exact absurd rfl (hr.endsNumber _ _ rfl).2.2.2
    · rfl
  | cons c s =>
    rw [List.cons_append]
    by_cases he : c = 'e'
    · subst he
      simp only [afterExponent, afterSign_append hr, afterDigits_append hr]
    · by_cases hE : c = 'E'
      · subst hE
        simp only [afterExponent, afterSign_append hr, afterDigits_append hr]
      · simp [afterExponent, he, hE]

theorem afterFraction_append (s : List Char) :
    afterFraction (s ++ r) = (afterFraction s).map (· ++ r) := by
  cases s with
  | nil =>
    rw [List.nil_append]
    unfold afterFraction
    split
    · exact absurd rfl (hr.endsNumber _ _ rfl).2.1
    · rfl
  | cons c s =>
    rw [List.cons_append]
    by_cases hd : c = '.'
    · subst hd
      simp only [afterFraction, afterDigits_append hr]
    · simp [afterFraction, hd]

theorem afterInteger_append (s : List Char) :
    afterInteger (s ++ r) = (afterInteger s).map (· ++ r) := by
  cases s with
  | nil =>
    have h0 : afterInteger r = afterDigits r := by
      unfold afterInteger
      split
      · exact absurd (hr _ _ rfl) (by decide)
      · rfl
    simpa [afterInteger, afterDigits] using h0.trans (afterDigits_append hr [])
  | cons c s =>
    rw [List.cons_append]
    by_cases h0 : c = '0'
    · subst h0
      rfl
    · have hs : ∀ t, afterInteger (c :: t) = afterDigits (c :: t) := fun t => by
        simp [afterInteger, h0]
      rw [hs, hs, ← List.cons_append, afterDigits_append hr]

/-- What comes after a number without its minus sign. -/
theorem afterUnsigned_append {s t : List Char}
    (h : ((afterInteger s).bind afterFraction).bind afterExponent = some t) :
    ((afterInteger (s ++ r)).bind afterFraction).bind afterExponent = some (t ++ r) := by
  obtain ⟨u, hu, ht⟩ := Option.bind_eq_some_iff.1 h
  obtain ⟨v, hv, hu⟩ := Option.bind_eq_some_iff.1 hu
  rw [afterInteger_append hr, hv, Option.map_some, Option.bind_some, afterFraction_append hr, hu,
    Option.map_some, Option.bind_some, afterExponent_append hr, ht, Option.map_some]

end Ends

theorem digits_absorb (bound m k : Nat) (s : List Char) :
    digits (absorb bound m k s).rest = digits s := by
  induction s generalizing m k with
  | nil => rfl
  | cons c s ih =>
    rw [absorb]
    split
    · rename_i h
      rw [ih]
      simp [digits, h.1]
    · rfl

theorem digits_of_startsWithDigit {s : List Char} (h : startsWithDigit s = false) :
    digits s = s := by
  cases s with
  | nil => rfl
  | cons c s =>
    have hc : c.isDigit = false := h
    simp [digits, hc]

theorem afterDigits_eq_some_iff {s u : List Char} :
    Decimal.afterDigits s = some u ↔ startsWithDigit s = true ∧ digits s = u := by
  cases s with
  | nil => simp [Decimal.afterDigits, startsWithDigit]
  | cons c s =>
    by_cases hc : c.isDigit = true <;>
      simp [Decimal.afterDigits, startsWithDigit, digits, hc]

theorem snd_exponentSign (s : List Char) : (exponentSign s).2 = Decimal.afterSign s := by
  cases s with
  | nil => rfl
  | cons c s =>
    by_cases hp : c = '+'
    · subst hp
      rfl
    · by_cases hm : c = '-'
      · subst hm
        rfl
      · simp [exponentSign, Decimal.afterSign, hp, hm]

theorem afterExponent_eq_self {s : List Char} (h : ∀ v, s ≠ 'e' :: v ∧ s ≠ 'E' :: v) :
    Decimal.afterExponent s = some s := by
  unfold Decimal.afterExponent
  split
  · exact absurd rfl (h _).1
  · exact absurd rfl (h _).2
  · rfl

namespace Significand

variable {g : Significand} {s u : List Char} {n : Number}

theorem eq_of_real {e : Int} (h : g.real e s = .ok (n, u)) : u = s := by
  simp only [real] at h
  split at h
  · cases h
    rfl
  · cases h

theorem afterDigits_of_exponent {e : Int} (h : g.exponent e s = .ok (n, u)) :
    Decimal.afterDigits (Decimal.afterSign s) = some u := by
  simp only [exponent, snd_exponentSign] at h
  split at h
  · rename_i hd
    refine afterDigits_eq_some_iff.2 ⟨hd, ?_⟩
    rw [← digits_absorb exponentBound 0 0]
    split at h
    · split at h
      · cases h
      · cases h
        rfl
    · rename_i hx
      rw [eq_of_real h, digits_of_startsWithDigit (by simpa using hx)]
  · cases h

theorem afterExponent_of_scaled {e : Int} (h : g.scaled e s = .ok (n, u)) :
    Decimal.afterExponent s = some u := by
  unfold scaled at h
  split at h
  · exact afterDigits_of_exponent h
  · exact afterDigits_of_exponent h
  · rename_i he hE
    rw [eq_of_real h]
    exact afterExponent_eq_self fun v => ⟨he v, hE v⟩

theorem afterExponent_of_fraction {e : Int} (h : g.fraction e s = .ok (n, u)) :
    (Decimal.afterDigits s).bind Decimal.afterExponent = some u := by
  simp only [fraction] at h
  split at h
  · rename_i hd
    rw [digits_absorb] at h
    rw [afterDigits_eq_some_iff.2 ⟨hd, rfl⟩]
    exact afterExponent_of_scaled h
  · cases h

theorem snd_whole (g : Significand) (s : List Char) : (g.whole s).2 = s := by
  unfold whole
  split
  · split <;> rfl
  · rfl

theorem afterFraction_of_finish {e : Nat} (h : g.finish e s = .ok (n, u)) :
    (Decimal.afterFraction s).bind Decimal.afterExponent = some u := by
  unfold finish at h
  split at h
  · exact afterExponent_of_fraction h
  · exact afterDigits_of_exponent h
  · exact afterDigits_of_exponent h
  · rename_i hd he hE
    have hu : u = s := by
      split at h
      · rw [← snd_whole g s, Except.ok.inj h]
      · exact eq_of_real h
    rw [hu]
    have hf : Decimal.afterFraction s = some s := by
      unfold Decimal.afterFraction
      split
      · exact absurd rfl (hd _)
      · rfl
    rw [hf, Option.bind_some]
    exact afterExponent_eq_self fun v => ⟨he v, hE v⟩

end Significand

/-- What comes after a numeral. -/
def afterNumber (s : List Char) : Option (List Char) :=
  ((Decimal.afterInteger (Decimal.afterMinus s)).bind Decimal.afterFraction).bind
    Decimal.afterExponent

theorem afterUnsigned_of_unsignedNumber {negative : Bool} {s u : List Char} {n : Number}
    (h : unsignedNumber negative s = .ok (n, u)) :
    ((Decimal.afterInteger s).bind Decimal.afterFraction).bind Decimal.afterExponent = some u := by
  simp only [unsignedNumber] at h
  split at h
  · split at h
    · cases h
    · rw [Option.bind_assoc]
      exact Significand.afterFraction_of_finish h
  · rename_i h0
    split at h
    · rename_i hd
      have hi : Decimal.afterInteger s = some (digits s) := by
        unfold Decimal.afterInteger
        split
        · exact absurd rfl (h0 _)
        · exact afterDigits_eq_some_iff.2 ⟨hd, rfl⟩
      rw [digits_absorb] at h
      rw [hi, Option.bind_assoc]
      exact Significand.afterFraction_of_finish h
    · cases h

/-- **What is left after a number that was read is what comes after its numeral.** -/
theorem afterNumber_of_readNumber {s u : List Char} {n : Number}
    (h : readNumber s = .ok (n, u)) : afterNumber s = some u := by
  unfold readNumber at h
  split at h
  · exact afterUnsigned_of_unsignedNumber h
  · rename_i hm
    have hs : Decimal.afterMinus s = s := by
      unfold Decimal.afterMinus
      split
      · exact absurd rfl (hm _)
      · rfl
    rw [afterNumber, hs]
    exact afterUnsigned_of_unsignedNumber h

/-! ### Numbers in front of more text -/

section OfAppend

variable {r : List Char} (hr : EndsValue r)

theorem Significand.real_of_append {g : Significand} {e : Int} {s u : List Char} {n : Number}
    (h : g.real e (s ++ r) = .ok (n, u)) : ∃ t, g.real e s = .ok (n, t) := by
  simp only [real] at h ⊢
  split at h
  · cases h
    exact ⟨s, rfl⟩
  · cases h

include hr

theorem fst_exponentSign_append (s : List Char) :
    (exponentSign (s ++ r)).1 = (exponentSign s).1 := by
  cases s with
  | nil =>
    rw [List.nil_append]
    unfold exponentSign
    split
    · exact absurd rfl hr.ne_sign.1
    · exact absurd rfl hr.ne_sign.2
    · rfl
  | cons c s => rw [exponentSign_append (by simp)]

theorem Significand.exponent_of_append {g : Significand} {e : Int} {s u : List Char} {n : Number}
    (h : g.exponent e (s ++ r) = .ok (n, u)) : ∃ t, g.exponent e s = .ok (n, t) := by
  simp only [exponent, fst_exponentSign_append hr, snd_exponentSign, afterSign_append hr,
    startsWithDigit_append hr.endsNumber, absorb_append hr.endsNumber] at h ⊢
  split at h
  · rename_i hd
    rw [if_pos hd]
    split at h
    · rename_i hx
      rw [if_pos hx]
      split at h
      · cases h
      · rename_i hz
        rw [if_neg hz]
        cases h
        exact ⟨_, rfl⟩
    · rename_i hx
      rw [if_neg hx]
      exact real_of_append h
  · cases h

theorem Significand.scaled_of_append {g : Significand} {e : Int} {s u : List Char} {n : Number}
    (h : g.scaled e (s ++ r) = .ok (n, u)) : ∃ t, g.scaled e s = .ok (n, t) := by
  cases s with
  | nil =>
    have hn : ∀ v, r ≠ 'e' :: v ∧ r ≠ 'E' :: v := fun v =>
      ⟨fun he => (hr.endsNumber _ v he).2.2.1 rfl, fun he => (hr.endsNumber _ v he).2.2.2 rfl⟩
    rw [List.nil_append, scaled_eq_real hn, ← List.nil_append r] at h
    rw [scaled_eq_real (by simp)]
    exact real_of_append h
  | cons c s =>
    rw [List.cons_append] at h
    by_cases he : c = 'e'
    · subst he
      exact exponent_of_append hr h
    · by_cases hE : c = 'E'
      · subst hE
        exact exponent_of_append hr h
      · rw [scaled_eq_real (by simp [he, hE])] at h ⊢
        exact real_of_append h

theorem Significand.fraction_of_append {g : Significand} {e : Int} {s u : List Char} {n : Number}
    (h : g.fraction e (s ++ r) = .ok (n, u)) : ∃ t, g.fraction e s = .ok (n, t) := by
  simp only [fraction, startsWithDigit_append hr.endsNumber, absorb_append hr.endsNumber,
    digits_append hr.endsNumber] at h ⊢
  split at h
  · rename_i hd
    rw [if_pos hd]
    exact scaled_of_append hr h
  · cases h

omit hr in
theorem Significand.finish_of_append_of_ne {g : Significand} {e : Nat} {s u : List Char}
    {n : Number} (hs : ∀ v, s ≠ '.' :: v ∧ s ≠ 'e' :: v ∧ s ≠ 'E' :: v)
    (hsr : ∀ v, s ++ r ≠ '.' :: v ∧ s ++ r ≠ 'e' :: v ∧ s ++ r ≠ 'E' :: v)
    (h : g.finish e (s ++ r) = .ok (n, u)) : ∃ t, g.finish e s = .ok (n, t) := by
  rw [finish_eq_whole hsr] at h
  rw [finish_eq_whole hs]
  split at h
  · rename_i h0
    rw [whole_append] at h
    cases h
    exact ⟨(g.whole s).2, by rw [if_pos h0]⟩
  · rename_i h0
    rw [if_neg h0]
    exact real_of_append h

theorem Significand.finish_of_append {g : Significand} {e : Nat} {s u : List Char} {n : Number}
    (h : g.finish e (s ++ r) = .ok (n, u)) : ∃ t, g.finish e s = .ok (n, t) := by
  cases s with
  | nil =>
    refine finish_of_append_of_ne (by simp) (fun v => ?_) h
    exact ⟨fun he => (hr.endsNumber _ v he).2.1 rfl, fun he => (hr.endsNumber _ v he).2.2.1 rfl,
      fun he => (hr.endsNumber _ v he).2.2.2 rfl⟩
  | cons c s =>
    by_cases hd : c = '.'
    · subst hd
      exact fraction_of_append hr h
    · by_cases he : c = 'e'
      · subst he
        exact exponent_of_append hr h
      · by_cases hE : c = 'E'
        · subst hE
          exact exponent_of_append hr h
        · exact finish_of_append_of_ne (by simp [hd, he, hE]) (by simp [hd, he, hE]) h

theorem unsignedNumber_of_append {negative : Bool} {c : Char} {s u : List Char} {n : Number}
    (h : unsignedNumber negative (c :: s ++ r) = .ok (n, u)) :
    ∃ t, unsignedNumber negative (c :: s) = .ok (n, t) := by
  by_cases hc : c = '0'
  · subst hc
    simp only [List.cons_append, unsignedNumber, startsWithDigit_append hr.endsNumber] at h ⊢
    split at h
    · cases h
    · rename_i hd
      rw [if_neg hd]
      exact Significand.finish_of_append hr h
  · rw [List.cons_append, unsignedNumber_of_ne_zero hc, ← List.cons_append,
      startsWithDigit_append hr.endsNumber, absorb_append hr.endsNumber] at h
    rw [unsignedNumber_of_ne_zero hc]
    split at h
    · rename_i hd
      rw [if_pos hd]
      simp only [digits_append hr.endsNumber, takeWhile_isDigit_append hr.endsNumber] at h
      exact Significand.finish_of_append hr h
    · cases h

/-- **A numeral is read as the number that it makes**, whatever comes after it, and not at all where
it makes none. -/
theorem readNumber_append_iff {w u : List Char} {n : Number} (hw : Decimal.isNumber w = true) :
    readNumber (w ++ r) = .ok (n, u) ↔ numberOf? w = some n ∧ u = r := by
  have hend : afterNumber w = some [] := eq_of_beq hw
  have hall : ∀ {t}, readNumber w = .ok (n, t) → t = [] := fun h =>
    Option.some.inj ((afterNumber_of_readNumber h).symm.trans hend)
  constructor
  · intro h
    obtain ⟨t, ht⟩ : ∃ t, readNumber w = .ok (n, t) := by
      cases w with
      | nil => cases hend
      | cons c w =>
        by_cases hm : c = '-'
        · subst hm
          cases w with
          | nil => cases hend
          | cons d w => exact unsignedNumber_of_append hr h
        · rw [List.cons_append, readNumber_of_ne_minus hm] at h
          rw [readNumber_of_ne_minus hm]
          exact unsignedNumber_of_append hr h
    have ht0 := hall ht
    subst ht0
    have hu := readNumber_append hr.endsNumber ht
    rw [h] at hu
    cases hu
    exact ⟨by rw [numberOf?, ht], rfl⟩
  · rintro ⟨hn, rfl⟩
    unfold numberOf? at hn
    split at hn
    · rename_i ht
      cases hn
      exact readNumber_append hr.endsNumber ht
    · cases hn

end OfAppend

/-! ### Numbers that are skipped -/

theorem skipDigits_eq_ok_iff {s u : List Char} :
    skipDigits s = .ok u ↔ Decimal.afterDigits s = some u := by
  rw [afterDigits_eq_some_iff, skipDigits]
  split <;> simp [*, failAhead]

theorem skipExponent_eq_ok_iff {s u : List Char} :
    skipExponent s = .ok u ↔ Decimal.afterExponent s = some u := by
  unfold skipExponent
  split
  · rw [skipDigits_eq_ok_iff, snd_exponentSign, Decimal.afterExponent]
  · rw [skipDigits_eq_ok_iff, snd_exponentSign, Decimal.afterExponent]
  · rename_i he hE
    rw [afterExponent_eq_self fun v => ⟨he v, hE v⟩]
    simp

theorem skipFraction_eq_ok_iff {s u : List Char} :
    skipFraction s = .ok u ↔
      (Decimal.afterFraction s).bind Decimal.afterExponent = some u := by
  unfold skipFraction
  split
  · rw [Decimal.afterFraction, Option.bind_eq_some_iff]
    simp only [← skipDigits_eq_ok_iff, ← skipExponent_eq_ok_iff]
    split <;> simp [*]
  · rename_i hd
    have hf : Decimal.afterFraction s = some s := by
      unfold Decimal.afterFraction
      split
      · exact absurd rfl (hd _)
      · rfl
    rw [hf, Option.bind_some, skipExponent_eq_ok_iff]

/-- What starts with a digit starts neither a fraction nor an exponent. -/
theorem after_of_startsWithDigit {s : List Char} (h : startsWithDigit s = true) :
    (Decimal.afterFraction s).bind Decimal.afterExponent = some s := by
  cases s with
  | nil => cases h
  | cons c s =>
    have hc : ∀ d, d.isDigit = false → c ≠ d := by
      rintro d hd rfl
      exact absurd (h.symm.trans hd) (by decide)
    have hf : Decimal.afterFraction (c :: s) = some (c :: s) := by
      simp [Decimal.afterFraction, hc '.' rfl]
    rw [hf, Option.bind_some]
    exact afterExponent_eq_self fun v => by simp [hc 'e' rfl, hc 'E' rfl]

theorem skipUnsigned_append {r s : List Char} (hr : EndsValue r)
    (h : ((Decimal.afterInteger s).bind Decimal.afterFraction).bind Decimal.afterExponent =
      some []) : skipUnsigned (s ++ r) = .ok r := by
  have ha := afterUnsigned_append hr h
  rw [Option.bind_assoc, List.nil_append] at ha
  unfold skipUnsigned
  split
  · rename_i t ht
    split
    · rename_i hd
      -- no digit follows a leading zero, since the numeral would end before it
      have ht' : some t = some r := by
        rw [← after_of_startsWithDigit hd, ← ha, ht]
        rfl
      cases ht'
      exact absurd (hd.symm.trans (startsWithDigit_of_endsNumber hr.endsNumber)) (by decide)
    · rw [ht] at ha
      exact skipFraction_eq_ok_iff.2 ha
  · rename_i h0
    have hi : Decimal.afterInteger (s ++ r) = Decimal.afterDigits (s ++ r) := by
      unfold Decimal.afterInteger
      split
      · rename_i ht
        exact absurd ht (h0 _)
      · rfl
    obtain ⟨t, ht, hf⟩ := Option.bind_eq_some_iff.1 ha
    simp only [skipDigits_eq_ok_iff.2 (hi ▸ ht)]
    exact skipFraction_eq_ok_iff.2 hf

/-- **A numeral is skipped as a whole.** -/
theorem skipScalar_numeral {r w : List Char} (hr : EndsValue r) (hw : Decimal.isNumber w = true) :
    skipScalar (w ++ r) = .ok r := by
  have hend : afterNumber w = some [] := eq_of_beq hw
  obtain ⟨c, w, rfl, hc⟩ := head_of_isNumber hw
  by_cases hm : c = '-'
  · subst hm
    exact skipUnsigned_append hr hend
  · have hc := hc.resolve_left hm
    have hs : Decimal.afterMinus (c :: w) = c :: w := by simp [Decimal.afterMinus, hm]
    rw [afterNumber, hs] at hend
    have hsk : skipScalar (c :: w ++ r) = skipUnsigned (c :: w ++ r) := by
      unfold skipScalar
      split
      iterate 5
        · rename_i he
          cases he
          exact absurd hc (by decide)
      · exact if_pos hc
    rw [hsk]
    exact skipUnsigned_append hr hend

end NativeTypes.Json
