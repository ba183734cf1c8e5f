import NativeTypes.Json.Token

/-! # Numbers inside a text

What `readNumber` takes off the front of a text does not depend on what comes after the number, as
long as that is nothing that could go on with it (`EndsNumber`). Each part of a number has a lemma
`…_append` of that form; `readNumber_append` puts them together. -/

namespace NativeTypes.Json

/-- No character that could go on with a number comes next. -/
def EndsNumber (r : List Char) : Prop :=
  ∀ c t, r = c :: t → c.isDigit = false ∧ c ≠ '.' ∧ c ≠ 'e' ∧ c ≠ 'E'

/-! ### The last case of each part -/

theorem Significand.scaled_eq_real {g : Significand} {e : Int} {s : List Char}
    (h : ∀ v, s ≠ 'e' :: v ∧ s ≠ 'E' :: v) : g.scaled e s = g.real e s := by
  unfold Significand.scaled
  split
  · exact absurd rfl (h _).1
  · exact absurd rfl (h _).2
  · rfl

theorem Significand.finish_eq_whole {g : Significand} {e : Nat} {s : List Char}
    (h : ∀ v, s ≠ '.' :: v ∧ s ≠ 'e' :: v ∧ s ≠ 'E' :: v) :
    g.finish e s = if e = 0 then .ok (g.whole s) else g.real e s := by
  unfold Significand.finish
  split
  · exact absurd rfl (h _).1
  · exact absurd rfl (h _).2.1
  · exact absurd rfl (h _).2.2
  · rfl

theorem unsignedNumber_of_ne_zero {negative : Bool} {c : Char} {s : List Char} (hc : c ≠ '0') :
    unsignedNumber negative (c :: s) =
      if startsWithDigit (c :: s) then
        let x := absorb UInt64.size 0 0 (c :: s)
        Significand.finish ⟨negative, x.value⟩ (x.rest.takeWhile Char.isDigit).length
          (digits x.rest)
      else failAhead .invalidNumber (c :: s) := by
  unfold unsignedNumber
  split
  · rename_i he
    cases he
    contradiction
  · rfl

theorem readNumber_of_ne_minus {c : Char} {s : List Char} (hc : c ≠ '-') :
    readNumber (c :: s) = unsignedNumber false (c :: s) := by
  unfold readNumber
  split
  · rename_i he
    cases he
    contradiction
  · rfl

/-! ### More text after a number -/

section Append

variable {r : List Char} (hr : EndsNumber r)
include hr

theorem startsWithDigit_of_endsNumber : startsWithDigit r = false := by
  cases r with
  | nil => rfl
  | cons c t => exact (hr c t rfl).1

theorem startsWithDigit_append (s : List Char) : startsWithDigit (s ++ r) = startsWithDigit s := by
  cases s with
  | nil => exact startsWithDigit_of_endsNumber hr
  | cons c s => rfl

theorem digits_append (s : List Char) : digits (s ++ r) = digits s ++ r := by
  induction s with
  | nil =>
    cases r with
    | nil => rfl
    | cons c t => simp [digits, (hr c t rfl).1]
  | cons c s ih =>
    simp only [digits] at ih
    by_cases hc : c.isDigit = true <;> simp [digits, hc, ih]

theorem takeWhile_isDigit_append (s : List Char) :
    (s ++ r).takeWhile Char.isDigit = s.takeWhile Char.isDigit := by
  induction s with
  | nil =>
    cases r with
    | nil => rfl
    | cons c t => simp [(hr c t rfl).1]
  | cons c s ih => by_cases hc : c.isDigit = true <;> simp [hc, ih]

theorem absorb_append (bound m k : Nat) (s : List Char) :
    absorb bound m k (s ++ r) =
      { absorb bound m k s with rest := (absorb bound m k s).rest ++ r } := by
  induction s generalizing m k with
  | nil =>
    cases r with
    | nil => rfl
    | cons c t => simp [absorb, (hr c t rfl).1]
  | cons c s ih =>
    by_cases hc : c.isDigit = true ∧ m * 10 + digitValue c < bound
    · simp only [List.cons_append, absorb, hc, and_self, if_true, ih]
    · simp only [List.cons_append, absorb, hc, if_false]

omit hr in
theorem Significand.real_append {g : Significand} {e : Int} {s t : List Char} {n : Number}
    (h : g.real e s = .ok (n, t)) : g.real e (s ++ r) = .ok (n, t ++ r) := by
  simp only [Significand.real] at h ⊢
  cases hx : (Decimal.Binary64.ofNat? g.m).bind (scale · e) with
  | none => simp [hx, failHere] at h
  | some x =>
    simp only [hx, Except.ok.injEq, Prod.mk.injEq] at h ⊢
    obtain ⟨rfl, rfl⟩ := h
    exact ⟨rfl, rfl⟩

omit hr in
theorem exponentSign_append {s : List Char} (hs : s ≠ []) :
    exponentSign (s ++ r) = ((exponentSign s).1, (exponentSign s).2 ++ r) := by
  obtain ⟨c, s, rfl⟩ := List.exists_cons_of_ne_nil hs
  rw [List.cons_append]
  by_cases hp : c = '+'
  · subst hp
    rfl
  · by_cases hm : c = '-'
    · subst hm
      rfl
    · simp [exponentSign, hp, hm]

theorem Significand.exponent_append {g : Significand} {e : Int} {s t : List Char} {n : Number}
    (h : g.exponent e s = .ok (n, t)) : g.exponent e (s ++ r) = .ok (n, t ++ r) := by
  have hs : s ≠ [] := by
    rintro rfl
    simp [Significand.exponent, exponentSign, startsWithDigit, failAhead] at h
  simp only [Significand.exponent] at h ⊢
  simp only [exponentSign_append hs, startsWithDigit_append hr, absorb_append hr]
  split at h
  · rename_i hd
    rw [if_pos hd]
    split at h
    · rename_i hx
      rw [if_pos hx]
      split at h
      · simp [failAhead] at h
      · rename_i hz
        rw [if_neg hz]
        simp only [Except.ok.injEq, Prod.mk.injEq] at h ⊢
        obtain ⟨hn, ht⟩ := h
        exact ⟨hn, by rw [digits_append hr, ht]⟩
    · rename_i hx
      rw [if_neg hx]
      exact real_append h
  · simp [failAhead] at h

theorem Significand.scaled_append {g : Significand} {e : Int} {s t : List Char} {n : Number}
    (h : g.scaled e s = .ok (n, t)) : g.scaled e (s ++ r) = .ok (n, t ++ r) := by
  cases s with
  | nil =>
    have hn : ∀ v, r ≠ 'e' :: v ∧ r ≠ 'E' :: v := fun v =>
      ⟨fun he => (hr _ v he).2.2.1 rfl, fun he => (hr _ v he).2.2.2 rfl⟩
    rw [scaled_eq_real (by simp)] at h
    rw [List.nil_append, scaled_eq_real hn]
    exact real_append h
  | cons c s =>
    rw [List.cons_append]
    by_cases he : c = 'e'
    · subst he
      exact exponent_append hr h
    · by_cases hE : c = 'E'
      · subst hE
        exact exponent_append hr h
      · rw [scaled_eq_real (by simp [he, hE])] at h ⊢
        exact real_append h

theorem Significand.fraction_append {g : Significand} {e : Int} {s t : List Char} {n : Number}
    (h : g.fraction e s = .ok (n, t)) : g.fraction e (s ++ r) = .ok (n, t ++ r) := by
  simp only [Significand.fraction, startsWithDigit_append hr, absorb_append hr] at h ⊢
  split at h
  · rename_i hd
    rw [if_pos hd, digits_append hr]
    exact scaled_append hr h
  · simp [failAhead] at h

omit hr in
theorem Significand.whole_append {g : Significand} {s : List Char} :
    g.whole (s ++ r) = ((g.whole s).1, (g.whole s).2 ++ r) := by
  unfold Significand.whole
  split
  · split <;> rfl
  · rfl

omit hr in
/-- The last case of `finish`, where neither text starts a fraction or an exponent. -/
theorem Significand.finish_append_of_ne {g : Significand} {e : Nat} {s t : List Char} {n : Number}
    (hs : ∀ v, s ≠ '.' :: v ∧ s ≠ 'e' :: v ∧ s ≠ 'E' :: v)
    (hsr : ∀ v, s ++ r ≠ '.' :: v ∧ s ++ r ≠ 'e' :: v ∧ s ++ r ≠ 'E' :: v)
    (h : g.finish e s = .ok (n, t)) : g.finish e (s ++ r) = .ok (n, t ++ r) := by
  rw [finish_eq_whole hs] at h
  rw [finish_eq_whole hsr]
  split at h
  · rename_i h0
    rw [if_pos h0, whole_append]
    simp only [Except.ok.injEq] at h ⊢
    rw [h]
  · rename_i h0
    rw [if_neg h0]
    exact real_append h

theorem Significand.finish_append {g : Significand} {e : Nat} {s t : List Char} {n : Number}
    (h : g.finish e s = .ok (n, t)) : g.finish e (s ++ r) = .ok (n, t ++ r) := by
  cases s with
  | nil =>
    refine finish_append_of_ne (by simp) (fun v => ?_) h
    exact ⟨fun he => (hr _ v he).2.1 rfl, fun he => (hr _ v he).2.2.1 rfl,
      fun he => (hr _ v he).2.2.2 rfl⟩
  | cons c s =>
    by_cases hd : c = '.'
    · subst hd
      exact fraction_append hr h
    · by_cases he : c = 'e'
      · subst he
        exact exponent_append hr h
      · by_cases hE : c = 'E'
        · subst hE
          exact exponent_append hr h
        · exact finish_append_of_ne (by simp [hd, he, hE]) (by simp [hd, he, hE]) h

theorem unsignedNumber_append {negative : Bool} {s t : List Char} {n : Number}
    (h : unsignedNumber negative s = .ok (n, t)) :
    unsignedNumber negative (s ++ r) = .ok (n, t ++ r) := by
  cases s with
  | nil => simp [unsignedNumber, startsWithDigit, failAhead] at h
  | cons c s =>
    by_cases hc : c = '0'
    · subst hc
      simp only [List.cons_append, unsignedNumber, startsWithDigit_append hr] at h ⊢
      split at h
      · simp [failAhead] at h
      · rename_i hd
        rw [if_neg hd]
        exact Significand.finish_append hr h
    · rw [unsignedNumber_of_ne_zero hc] at h
      rw [List.cons_append, unsignedNumber_of_ne_zero hc, ← List.cons_append,
        startsWithDigit_append hr, absorb_append hr]
      split at h
      · rename_i hd
        rw [if_pos hd]
        simp only [digits_append hr, takeWhile_isDigit_append hr]
        exact Significand.finish_append hr h
      · simp [failAhead] at h

/-- **A number is read in the same way, whatever comes after it.** -/
theorem readNumber_append {s t : List Char} {n : Number} (h : readNumber s = .ok (n, t)) :
    readNumber (s ++ r) = .ok (n, t ++ r) := by
  cases s with
  | nil => simp [readNumber, unsignedNumber, startsWithDigit, failAhead] at h
  | cons c s =>
    by_cases hc : c = '-'
    · subst hc
      exact unsignedNumber_append hr h
    · rw [readNumber_of_ne_minus hc] at h
      rw [List.cons_append, readNumber_of_ne_minus hc, ← List.cons_append]
      exact unsignedNumber_append hr h

end Append

end NativeTypes.Json
