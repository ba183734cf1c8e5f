import NativeTypes.Default

/-! # The numerals of a default

Which texts spell a number. `Decimal.IsNumeral` is the grammar of numerals, in which the four parts
of a numeral are named one after the other; `Decimal.isNumber` takes the parts off a text one by
one, and accepts exactly these texts (`Decimal.isNumber_iff`): what follows a part never starts with
a character that could go on with it. An integer numeral is the decimal text of a natural number,
or of one after a minus sign (`Decimal.isInteger_iff`); the second is the text of an integer unless
the number is zero.

`Ty.acceptsDefault_numeric`: **the defaults of the four numeric primitives.** -/

namespace NativeTypes

namespace Decimal

/-! ### The grammar -/

/-- One digit or more. -/
def IsDigits (s : List Char) : Prop :=
  s ≠ [] ∧ ∀ c ∈ s, c.isDigit = true

/-- An integer part: digits that start with a zero only where it is the only one. -/
def IsIntegerPart (s : List Char) : Prop :=
  IsDigits s ∧ ∀ r, s = '0' :: r → r = []

/-- A fraction, which may be left out. -/
def IsFraction (s : List Char) : Prop :=
  s = [] ∨ ∃ ds, s = '.' :: ds ∧ IsDigits ds

/-- An exponent, which may be left out, and so may its sign. -/
def IsExponent (s : List Char) : Prop :=
  s = [] ∨ ∃ e sign ds, s = e :: (sign ++ ds) ∧ e ∈ ['e', 'E'] ∧ sign ∈ [[], ['+'], ['-']] ∧
    IsDigits ds

/-- **Numerals.** -/
def IsNumeral (s : List Char) : Prop :=
  ∃ sign i f e, s = sign ++ (i ++ (f ++ e)) ∧ sign ∈ [[], ['-']] ∧ IsIntegerPart i ∧
    IsFraction f ∧ IsExponent e

/-! ### One part after the other -/

/-- A text does not start with a digit. -/
def EndsDigits (r : List Char) : Prop :=
  ∀ c t, r = c :: t → c.isDigit = false

theorem IsDigits.afterDigits_append {ds r : List Char} (h : IsDigits ds) (hr : EndsDigits r) :
    afterDigits (ds ++ r) = some r := by
  obtain ⟨c, ds, rfl⟩ := List.exists_cons_of_ne_nil h.1
  obtain ⟨hc, hds⟩ := List.forall_mem_cons.1 h.2
  have hd : r.dropWhile Char.isDigit = r := by
    cases r with
    | nil => rfl
    | cons c t => simp [hr c t rfl]
  rw [List.cons_append, afterDigits, if_pos hc, List.dropWhile_append_of_pos hds, hd]

theorem exists_digits {s r : List Char} (h : afterDigits s = some r) :
    ∃ ds, s = ds ++ r ∧ IsDigits ds := by
  cases s with
  | nil => cases h
  | cons c s =>
    rw [afterDigits] at h
    split at h
    · rename_i hc
      cases h
      refine ⟨c :: s.takeWhile Char.isDigit, ?_, List.cons_ne_nil _ _, ?_⟩
      · rw [List.cons_append, List.takeWhile_append_dropWhile]
      · exact List.forall_mem_cons.2 ⟨hc, List.all_eq_true.1 List.all_takeWhile⟩
    · cases h

theorem afterInteger_of_ne_zero {c : Char} {s : List Char} (h : c ≠ '0') :
    afterInteger (c :: s) = afterDigits (c :: s) := by
  simp [afterInteger, h]

theorem IsIntegerPart.afterInteger_append {i r : List Char} (h : IsIntegerPart i)
    (hr : EndsDigits r) : afterInteger (i ++ r) = some r := by
  obtain ⟨c, ds, rfl⟩ := List.exists_cons_of_ne_nil h.1.1
  by_cases hc : c = '0'
  · subst hc
    rw [h.2 ds rfl]
    rfl
  · rw [List.cons_append, afterInteger_of_ne_zero hc]
    exact h.1.afterDigits_append hr

theorem exists_integerPart {s r : List Char} (h : afterInteger s = some r) :
    ∃ i, s = i ++ r ∧ IsIntegerPart i := by
  cases s with
  | nil => cases h
  | cons c s =>
    by_cases hc : c = '0'
    · subst hc
      cases h
      refine ⟨['0'], rfl, ⟨List.cons_ne_nil _ _, List.forall_mem_singleton.2 rfl⟩, ?_⟩
      rintro t ⟨⟩
      rfl
    · rw [afterInteger_of_ne_zero hc] at h
      obtain ⟨ds, hs, hds⟩ := exists_digits h
      refine ⟨ds, hs, hds, ?_⟩
      rintro t rfl
      cases hs
      exact absurd rfl hc

theorem IsFraction.afterFraction_append {f e : List Char} (h : IsFraction f) (he : IsExponent e) :
    afterFraction (f ++ e) = some e := by
  rcases h with rfl | ⟨ds, rfl, hds⟩
  · rcases he with rfl | ⟨c, sign, ds, rfl, hc, -⟩
    · rfl
    · simp only [List.mem_cons, List.not_mem_nil, or_false] at hc
      rcases hc with rfl | rfl <;> rfl
  · refine hds.afterDigits_append ?_
    rcases he with rfl | ⟨c, sign, ds, rfl, hc, -⟩
    · rintro _ _ ⟨⟩
    · simp only [List.mem_cons, List.not_mem_nil, or_false] at hc
      rcases hc with rfl | rfl <;>
      · rintro _ _ ⟨⟩
        rfl

theorem exists_fraction {s r : List Char} (h : afterFraction s = some r) :
    ∃ f, s = f ++ r ∧ IsFraction f := by
  unfold afterFraction at h
  split at h
  · obtain ⟨ds, rfl, hds⟩ := exists_digits h
    exact ⟨'.' :: ds, rfl, .inr ⟨ds, rfl, hds⟩⟩
  · cases h
    exact ⟨[], rfl, .inl rfl⟩

theorem IsDigits.afterSign_append {sign ds : List Char} (hds : IsDigits ds)
    (h : sign ∈ [[], ['+'], ['-']]) : afterSign (sign ++ ds) = ds := by
  obtain ⟨c, ds, rfl⟩ := List.exists_cons_of_ne_nil hds.1
  have hc := (List.forall_mem_cons.1 hds.2).1
  simp only [List.mem_cons, List.not_mem_nil, or_false] at h
  rcases h with rfl | rfl | rfl
  · have hp : c ≠ '+' := by
      rintro rfl
      cases hc
    have hm : c ≠ '-' := by
      rintro rfl
      cases hc
    simp [afterSign, hp, hm]
  · rfl
  · rfl

theorem exists_sign (s : List Char) :
    ∃ sign, s = sign ++ afterSign s ∧ sign ∈ [[], ['+'], ['-']] := by
  unfold afterSign
  split
  · exact ⟨['+'], rfl, by simp⟩
  · exact ⟨['-'], rfl, by simp⟩
  · exact ⟨[], rfl, by simp⟩

/-- An exponent is taken off whole. -/
theorem afterExponent_eq_nil_iff {s : List Char} : afterExponent s = some [] ↔ IsExponent s := by
  constructor
  · intro h
    have signed : ∀ {e r}, e ∈ ['e', 'E'] → afterDigits (afterSign r) = some [] →
        IsExponent (e :: r) := by
      intro e r he hr
      obtain ⟨sign, hs, hsign⟩ := exists_sign r
      obtain ⟨ds, hd, hds⟩ := exists_digits hr
      rw [List.append_nil] at hd
      exact .inr ⟨e, sign, ds, by rw [← hd, ← hs], he, hsign, hds⟩
    unfold afterExponent at h
    split at h
    · exact signed (by simp) h
    · exact signed (by simp) h
    · cases h
      exact .inl rfl
  · rintro (rfl | ⟨e, sign, ds, rfl, he, hsign, hds⟩)
    · rfl
    · have hr : afterDigits (afterSign (sign ++ ds)) = some [] := by
        rw [hds.afterSign_append hsign, ← List.append_nil ds]
        exact hds.afterDigits_append (by rintro _ _ ⟨⟩)
      simp only [List.mem_cons, List.not_mem_nil, or_false] at he
      rcases he with rfl | rfl <;> exact hr

theorem IsIntegerPart.afterMinus_append {sign i r : List Char} (hi : IsIntegerPart i)
    (h : sign ∈ [[], ['-']]) : afterMinus (sign ++ (i ++ r)) = i ++ r := by
  obtain ⟨c, ds, rfl⟩ := List.exists_cons_of_ne_nil hi.1.1
  have hc := (List.forall_mem_cons.1 hi.1.2).1
  simp only [List.mem_cons, List.not_mem_nil, or_false] at h
  rcases h with rfl | rfl
  · have hm : c ≠ '-' := by
      rintro rfl
      cases hc
    simp [afterMinus, hm]
  · rfl

theorem exists_minus (s : List Char) : ∃ sign, s = sign ++ afterMinus s ∧ sign ∈ [[], ['-']] := by
  unfold afterMinus
  split
  · exact ⟨['-'], rfl, by simp⟩
  · exact ⟨[], rfl, by simp⟩

/-! ### Numerals -/

/-- **A text is a numeral exactly if its parts, taken off one by one, leave nothing.** -/
theorem isNumber_iff {s : List Char} : isNumber s = true ↔ IsNumeral s := by
  rw [isNumber, beq_iff_eq]
  constructor
  · intro h
    obtain ⟨b, hb, he⟩ := Option.bind_eq_some_iff.1 h
    obtain ⟨a, ha, hf⟩ := Option.bind_eq_some_iff.1 hb
    obtain ⟨sign, hs, hsign⟩ := exists_minus s
    obtain ⟨i, hi, hint⟩ := exists_integerPart ha
    obtain ⟨f, rfl, hfrac⟩ := exists_fraction hf
    exact ⟨sign, i, f, b, hi ▸ hs, hsign, hint, hfrac, afterExponent_eq_nil_iff.1 he⟩
  · rintro ⟨sign, i, f, e, rfl, hsign, hi, hf, he⟩
    have hends : EndsDigits (f ++ e) := by
      rcases hf with rfl | ⟨ds, rfl, -⟩
      · rcases he with rfl | ⟨c, sign, ds, rfl, hc, -⟩
        · rintro _ _ ⟨⟩
        · simp only [List.mem_cons, List.not_mem_nil, or_false] at hc
          rcases hc with rfl | rfl <;>
          · rintro _ _ ⟨⟩
            rfl
      · rintro _ _ ⟨⟩
        rfl
    rw [hi.afterMinus_append hsign, hi.afterInteger_append hends, Option.bind_some,
      hf.afterFraction_append he, Option.bind_some, afterExponent_eq_nil_iff.2 he]

/-! ### Integers -/

theorem digitChar_toNat {c : Char} (h : c.isDigit = true) :
    c.toNat - '0'.toNat < 10 ∧ Nat.digitChar (c.toNat - '0'.toNat) = c := by
  have hall : ∀ n < 58, 48 ≤ n →
      n - '0'.toNat < 10 ∧ Nat.digitChar (n - '0'.toNat) = Char.ofNat n := by
    decide
  simp only [Char.isDigit, Bool.and_eq_true, decide_eq_true_eq] at h
  have h48 : 48 ≤ c.toNat := UInt32.le_iff_toNat_le.1 h.1
  have h57 : c.toNat ≤ 57 := UInt32.le_iff_toNat_le.1 h.2
  have hc := hall c.toNat (by omega) h48
  rwa [Char.ofNat_toNat] at hc

/-- More digits after those of a positive number. -/
theorem toDigits_append_digits {ds : List Char} (h : ∀ c ∈ ds, c.isDigit = true) {n : Nat}
    (hn : 0 < n) : Nat.toDigits 10 n ++ ds = Nat.toDigits 10 (Nat.ofDigitChars 10 ds n) := by
  induction ds generalizing n with
  | nil => rw [List.append_nil, Nat.ofDigitChars_nil]
  | cons c ds ih =>
    obtain ⟨hc, hds⟩ := List.forall_mem_cons.1 h
    obtain ⟨hlt, hchar⟩ := digitChar_toNat hc
    have hone : Nat.toDigits 10 (c.toNat - '0'.toNat) = [c] := by
      rw [Nat.toDigits_of_lt_base hlt, hchar]
    rw [Nat.ofDigitChars_cons, ← ih hds (by omega),
      ← Nat.toDigits_append_toDigits (by decide) hn hlt, hone, List.append_assoc,
      List.singleton_append]

/-- **An integer part is the decimal text of its value.** -/
theorem toDigits_ofDigitChars {s : List Char} (h : IsIntegerPart s) :
    Nat.toDigits 10 (Nat.ofDigitChars 10 s 0) = s := by
  obtain ⟨c, ds, rfl⟩ := List.exists_cons_of_ne_nil h.1.1
  obtain ⟨hc, hds⟩ := List.forall_mem_cons.1 h.1.2
  by_cases h0 : c = '0'
  · subst h0
    rw [h.2 ds rfl]
    decide
  · obtain ⟨hlt, hchar⟩ := digitChar_toNat hc
    have hpos : 0 < c.toNat - '0'.toNat := by
      refine Nat.pos_of_ne_zero fun hz => h0 ?_
      rw [← hchar, hz]
      rfl
    rw [Nat.ofDigitChars_cons, Nat.mul_zero, Nat.zero_add, ← toDigits_append_digits hds hpos,
      Nat.toDigits_of_lt_base hlt, hchar, List.singleton_append]

theorem isIntegerPart_toDigits (n : Nat) : IsIntegerPart (Nat.toDigits 10 n) := by
  have digits : ∀ n, IsDigits (Nat.toDigits 10 n) := fun n =>
    ⟨Nat.toDigits_ne_nil, fun c hc => Nat.isDigit_of_mem_toDigits (by decide) (by decide) hc⟩
  refine ⟨digits n, ?_⟩
  induction n using Nat.strongRecOn with
  | ind n ih =>
    intro r hr
    by_cases hn : n < 10
    · rw [Nat.toDigits_of_lt_base hn] at hr
      exact (List.cons.inj hr).2.symm
    · rw [Nat.toDigits_of_base_le (by decide) (Nat.le_of_not_lt hn)] at hr
      obtain ⟨d, ds, hd⟩ := List.exists_cons_of_ne_nil (digits (n / 10)).1
      rw [hd] at hr
      obtain ⟨rfl, -⟩ := List.cons.inj hr
      -- The digits before the last one are a lone zero, which is the text of zero alone.
      have h0 : Nat.toDigits 10 (n / 10) = Nat.toDigits 10 0 := by
        rw [hd, ih (n / 10) (by omega) ds hd, Nat.toDigits_zero]
      have := congrArg (Nat.ofDigitChars 10 · 0) h0
      simp only [Nat.ofDigitChars_ten_toDigits] at this
      omega

/-- **An integer numeral is the decimal text of a natural number**, with or without a minus sign. -/
theorem isInteger_iff {s : List Char} :
    isInteger s = true ↔ ∃ n, s = Nat.toDigits 10 n ∨ s = '-' :: Nat.toDigits 10 n := by
  rw [isInteger, beq_iff_eq]
  constructor
  · intro h
    obtain ⟨i, hi, hint⟩ := exists_integerPart h
    obtain ⟨sign, hs, hsign⟩ := exists_minus s
    rw [hi, List.append_nil] at hs
    refine ⟨Nat.ofDigitChars 10 i 0, ?_⟩
    rw [toDigits_ofDigitChars hint, hs]
    simp only [List.mem_cons, List.not_mem_nil, or_false] at hsign
    rcases hsign with rfl | rfl
    · exact .inl rfl
    · exact .inr rfl
  · have whole : ∀ (sign : List Char) (n : Nat), sign ∈ [[], ['-']] →
        afterInteger (afterMinus (sign ++ Nat.toDigits 10 n)) = some [] := by
      intro sign n hsign
      have hi := isIntegerPart_toDigits n
      rw [← List.append_nil (Nat.toDigits 10 n), hi.afterMinus_append hsign]
      exact hi.afterInteger_append (by rintro _ _ ⟨⟩)
    rintro ⟨n, rfl | rfl⟩
    · exact whole [] n (by simp)
    · exact whole ['-'] n (by simp)

theorem integerValue_toDigits (n : Nat) : integerValue (Nat.toDigits 10 n) = n := by
  have h : integerValue (Nat.toDigits 10 n) =
      (Nat.ofDigitChars 10 (Nat.toDigits 10 n) 0 : Nat) := by
    unfold integerValue
    split
    · rename_i r hr
      have hm := Nat.isDigit_of_mem_toDigits (b := 10) (n := n) (c := '-') (by decide) (by decide)
        (by simp [hr])
      cases hm
    · rfl
  rw [h, Nat.ofDigitChars_ten_toDigits]

theorem integerValue_minus_toDigits (n : Nat) : integerValue ('-' :: Nat.toDigits 10 n) = -n := by
  rw [integerValue, Nat.ofDigitChars_ten_toDigits]

end Decimal

/-! ### Defaults -/

/-- A numeral is not blank, since it holds a digit. -/
theorem Text.isBlank_eq_false_of_isNumber {l : String} (h : Decimal.isNumber l.toList = true) :
    isBlank l = false := by
  obtain ⟨sign, i, f, e, hl, -, ⟨⟨hne, hi⟩, -⟩, -⟩ := Decimal.isNumber_iff.1 h
  obtain ⟨c, ds, rfl⟩ := List.exists_cons_of_ne_nil hne
  have hc : isWhite c = false := by
    have hd := hi c List.mem_cons_self
    simp only [Char.isDigit, Bool.and_eq_true, decide_eq_true_eq] at hd
    have h48 : 48 ≤ c.toNat := UInt32.le_iff_toNat_le.1 hd.1
    have h57 : c.toNat ≤ 57 := UInt32.le_iff_toNat_le.1 hd.2
    simp only [isWhite, Bool.or_eq_false_iff, Bool.and_eq_false_iff, decide_eq_false_iff_not,
      beq_eq_false_iff_ne]
    omega
  rw [isBlank, List.all_eq_false]
  exact ⟨c, by simp [hl], by simp [hc]⟩

theorem Primitive.isNumber_of_accepts_int32 {l : String} (h : int32.accepts l = true) :
    Decimal.isNumber l.toList = true := by
  rw [accepts, Bool.and_eq_true] at h
  exact Decimal.isNumber_of_isInteger h.1

/-- The decimal text of an integer. -/
theorem toList_toString_int (i : Int) : (toString i).toList =
    if 0 ≤ i then Nat.toDigits 10 i.natAbs else '-' :: Nat.toDigits 10 i.natAbs := by
  cases i with
  | ofNat n => simp [Int.toString_eq_repr, Int.repr]
  | negSucc n => simp [Int.toString_eq_repr, Int.repr]

/-- **The texts of an integer of 32 bits**: those of the integers in the range, and minus zero. -/
theorem Primitive.accepts_int32_iff {l : String} : int32.accepts l = true ↔
    (∃ i : Int, -2147483648 ≤ i ∧ i ≤ 2147483647 ∧ l = toString i) ∨ l = "-0" := by
  simp only [accepts, fitsInt32, Bool.and_eq_true, decide_eq_true_eq]
  constructor
  · rintro ⟨hs, hlow, hhigh⟩
    obtain ⟨n, hn | hn⟩ := Decimal.isInteger_iff.1 hs
    · rw [hn, Decimal.integerValue_toDigits] at hlow hhigh
      refine .inl ⟨n, hlow, hhigh, String.toList_injective ?_⟩
      rw [hn, toList_toString_int, if_pos (Int.natCast_nonneg n), Int.natAbs_natCast]
    · rw [hn, Decimal.integerValue_minus_toDigits] at hlow hhigh
      by_cases h0 : n = 0
      · refine .inr (String.toList_injective ?_)
        rw [hn, h0]
        rfl
      · refine .inl ⟨-n, hlow, hhigh, String.toList_injective ?_⟩
        rw [hn, toList_toString_int, if_neg (by omega), Int.natAbs_neg, Int.natAbs_natCast]
  · rintro (⟨i, hlow, hhigh, rfl⟩ | rfl)
    · rw [toList_toString_int]
      split
      · rw [Decimal.integerValue_toDigits]
        exact ⟨Decimal.isInteger_iff.2 ⟨_, .inl rfl⟩, by omega⟩
      · rw [Decimal.integerValue_minus_toDigits]
        exact ⟨Decimal.isInteger_iff.2 ⟨_, .inr rfl⟩, by omega⟩
    · decide

namespace Ty

/-- **The defaults of the numeric primitives.** An integer of 32 bits takes the decimal texts of the
integers in its range, and minus zero besides; each of the others takes the numerals, and so all
that an integer of 32 bits takes. -/
theorem acceptsDefault_numeric (l : String) :
    ((primitive .int32).acceptsDefault l = true ↔
      (∃ i : Int, -2147483648 ≤ i ∧ i ≤ 2147483647 ∧ l = toString i) ∨ l = "-0") ∧
    ∀ p ∈ [Primitive.float, .double, .numberLiterals],
      ((primitive p).acceptsDefault l = true ↔ Decimal.IsNumeral l.toList) ∧
      ((primitive .int32).acceptsDefault l = true → (primitive p).acceptsDefault l = true) := by
  have number : ∀ p ∈ [Primitive.float, .double, .numberLiterals],
      ((primitive p).acceptsDefault l = true ↔ Decimal.isNumber l.toList = true) := by
    intro p hp
    have ha : p.accepts l = Decimal.isNumber l.toList := by
      simp only [List.mem_cons, List.not_mem_nil, or_false] at hp
      rcases hp with rfl | rfl | rfl <;> rfl
    rw [acceptsDefault, accepts, ha, Bool.and_eq_true, Bool.not_eq_true']
    exact and_iff_right_of_imp Text.isBlank_eq_false_of_isNumber
  have integer : (primitive .int32).acceptsDefault l = true ↔ Primitive.int32.accepts l = true := by
    rw [acceptsDefault, accepts, Bool.and_eq_true, Bool.not_eq_true']
    exact and_iff_right_of_imp fun h =>
      Text.isBlank_eq_false_of_isNumber (Primitive.isNumber_of_accepts_int32 h)
  refine ⟨integer.trans Primitive.accepts_int32_iff, fun p hp => ⟨?_, fun h => ?_⟩⟩
  · rw [number p hp, Decimal.isNumber_iff]
  · exact (number p hp).2 (Primitive.isNumber_of_accepts_int32 (integer.1 h))

/-- The range has one number more below zero than above. -/
example : (primitive .int32).acceptsDefault "-2147483648" = true ∧
    (primitive .int32).acceptsDefault "2147483648" = false ∧
    (primitive .float).acceptsDefault "2147483648" = true := by
  decide +kernel

end Ty

end NativeTypes
