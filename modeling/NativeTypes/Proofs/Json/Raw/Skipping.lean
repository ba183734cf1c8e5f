import NativeTypes.Proofs.Json.Raw.Reading

/-! # JSON texts that are skipped

`Reader.skip` takes every JSON text as a whole (`takes_skip`), however deep it nests and whether or
not it has a value. A step of `Skip` goes over one bracket, name or comma; over a value that holds
no others it goes at once. So the induction is over the structure of the text, with the brackets
that are open around it left free (`Skip.Skips`). -/

namespace NativeTypes.Json

namespace Skip

theorem run_of_step {k l : Skip} (hk : k.isDone = false) (h : k.step = .ok l) :
    k.run = l.run := by
  rw [run, dif_neg (by simp [hk])]
  split
  · rename_i he
    rw [h] at he
    cases he
  · rename_i he
    rw [h] at he
    cases he
    rfl

/-- The value `x` is skipped, whatever is open around it. -/
def Skips (x : Raw) : Prop :=
  ∀ {opened : List Bracket} {s a r : List Char}, Blanks s a → x.Spells a r → EndsValue r →
    run ⟨.value, opened, s⟩ = run ⟨.comma, opened, r⟩

theorem skips_of_scalar {x : Raw}
    (h : ∀ {a r : List Char}, x.Spells a r → EndsValue r →
      (∀ t, a ≠ '[' :: t ∧ a ≠ '{' :: t) ∧ skipScalar a = .ok r) : Skips x := by
  intro opened s a r hs ha hr
  obtain ⟨hb, hsk⟩ := h ha hr
  refine run_of_step rfl ?_
  simp only [step, ha.blank_eq hs]
  split
  · exact absurd rfl (hb _).1
  · exact absurd rfl (hb _).2
  · rw [hsk]
    rfl

/-! ### Lists -/

theorem run_moreItems {xs : List Raw} (h : ∀ x ∈ xs, Skips x) {opened : List Bracket}
    {s r : List Char} (hs : Raw.SpellsMoreItems xs s r) :
    run ⟨.comma, .list :: opened, s⟩ = run ⟨.comma, opened, r⟩ := by
  induction xs generalizing s with
  | nil =>
    have hb : blank s = ']' :: r := Blanks.blank_eq_cons hs rfl
    exact run_of_step rfl (by simp only [step, hb])
  | cons x xs ih =>
    rw [List.forall_mem_cons] at h
    obtain ⟨t, a, b, hst, hta, hx, hxs⟩ := hs
    have hb : blank s = ',' :: t := hst.blank_eq_cons rfl
    calc run ⟨.comma, .list :: opened, s⟩
        = run ⟨.value, .list :: opened, t⟩ := run_of_step rfl (by simp only [step, hb])
      _ = run ⟨.comma, .list :: opened, b⟩ := h.1 hta hx hxs.endsValue
      _ = run ⟨.comma, opened, r⟩ := ih h.2 hxs

theorem skips_array {xs : List Raw} (h : ∀ x ∈ xs, Skips x) : Skips (.array xs) := by
  intro opened s a r hs ha hr
  have hb := ha.blank_eq hs
  cases xs with
  | nil =>
    obtain ⟨t, rfl, ht⟩ := ha
    exact run_of_step rfl (by simp only [step, hb, ht.blank_eq_cons rfl])
  | cons x xs =>
    rw [List.forall_mem_cons] at h
    obtain ⟨t, a', b, rfl, hta, hx, hxs⟩ := ha
    obtain ⟨c, u, rfl, hc, hne⟩ := hx.head
    have ht : blank t = c :: u := hta.blank_eq_cons hc
    calc run ⟨.value, opened, s⟩
        = run ⟨.value, .list :: opened, c :: u⟩ := run_of_step rfl (by
          simp only [step, hb, ht]
          split
          · rename_i he
            cases he
          · rename_i he
            exact absurd (List.cons.inj he).1 hne
          · rfl)
      _ = run ⟨.comma, .list :: opened, b⟩ := h.1 (blanks_refl _) hx hxs.endsValue
      _ = run ⟨.comma, opened, r⟩ := run_moreItems h.2 hxs

/-! ### Objects -/

theorem run_field {f : List Char × Raw} (h : Skips f.2) {opened : List Bracket}
    {s a r : List Char} (hs : Blanks s a) (hf : Raw.SpellsField f a r) (hr : EndsValue r) :
    run ⟨.name, opened, s⟩ = run ⟨.comma, opened, r⟩ := by
  obtain ⟨k, x⟩ := f
  obtain ⟨b, t, c, ⟨hk, rfl⟩, hbt, htc, hx⟩ := hf
  have hb : blank s = '"' :: (k ++ '"' :: b) := hs.blank_eq_cons rfl
  have hn : step ⟨.name, opened, s⟩ = .ok ⟨.value, opened, t⟩ := by
    simp only [step, hb, skipString_append hk]
    show ((colon b).map fun t => (⟨.value, opened, t⟩ : Skip)) = _
    rw [colon_of_blanks hbt]
    rfl
  exact (run_of_step rfl hn).trans (h htc hx hr)

theorem run_moreFields {fs : List (List Char × Raw)} (h : ∀ f ∈ fs, Skips f.2)
    {opened : List Bracket} {s r : List Char} (hs : Raw.SpellsMoreFields fs s r) :
    run ⟨.comma, .object :: opened, s⟩ = run ⟨.comma, opened, r⟩ := by
  induction fs generalizing s with
  | nil =>
    have hb : blank s = '}' :: r := Blanks.blank_eq_cons hs rfl
    exact run_of_step rfl (by simp only [step, hb])
  | cons f fs ih =>
    rw [List.forall_mem_cons] at h
    obtain ⟨t, a, b, hst, hta, hf, hfs⟩ := hs
    have hb : blank s = ',' :: t := hst.blank_eq_cons rfl
    calc run ⟨.comma, .object :: opened, s⟩
        = run ⟨.name, .object :: opened, t⟩ := run_of_step rfl (by simp only [step, hb])
      _ = run ⟨.comma, .object :: opened, b⟩ := run_field h.1 hta hf hfs.endsValue
      _ = run ⟨.comma, opened, r⟩ := ih h.2 hfs

theorem skips_object {fs : List (List Char × Raw)} (h : ∀ f ∈ fs, Skips f.2) :
    Skips (.object fs) := by
  intro opened s a r hs ha hr
  have hb := ha.blank_eq hs
  cases fs with
  | nil =>
    obtain ⟨t, rfl, ht⟩ := ha
    exact run_of_step rfl (by simp only [step, hb, ht.blank_eq_cons rfl])
  | cons f fs =>
    rw [List.forall_mem_cons] at h
    obtain ⟨t, a', b, rfl, hta, hf, hfs⟩ := ha
    obtain ⟨u, rfl⟩ := hf.head
    have ht : blank t = '"' :: u := hta.blank_eq_cons rfl
    calc run ⟨.value, opened, s⟩
        = run ⟨.name, .object :: opened, '"' :: u⟩ := run_of_step rfl (by
          simp only [step, hb, ht]
          rfl)
      _ = run ⟨.comma, .object :: opened, b⟩ := run_field h.1 (blanks_refl _) hf hfs.endsValue
      _ = run ⟨.comma, opened, r⟩ := run_moreFields h.2 hfs

/-- Every value is skipped as a whole. -/
theorem skips (x : Raw) : Skips x := by
  induction x using Raw.induction_parts with
  | null =>
    refine skips_of_scalar ?_
    rintro a r rfl -
    exact ⟨by simp, rfl⟩
  | boolean b =>
    cases b <;>
    · refine skips_of_scalar ?_
      rintro a r rfl -
      exact ⟨by simp, rfl⟩
  | number w =>
    refine skips_of_scalar ?_
    rintro a r ⟨hw, rfl⟩ hr
    refine ⟨fun t => ?_, skipScalar_numeral hr hw⟩
    obtain ⟨c, v, rfl, hc⟩ := head_of_isNumber hw
    constructor <;>
    · rintro he
      cases he
      rcases hc with hc | hc <;> exact absurd hc (by decide)
  | string w =>
    refine skips_of_scalar ?_
    rintro a r ⟨hw, rfl⟩ -
    exact ⟨by simp, skipString_append hw r⟩
  | array xs ih => exact skips_array ih
  | object fs ih => exact skips_object ih

end Skip

/-- **Every JSON text is skipped as a whole.** -/
theorem takes_skip (x : Raw) : Takes Reader.skip x (some ()) := by
  intro s a r u v hs ha hr
  have hdone : Skip.run ⟨.comma, [], r⟩ = .ok r := by
    rw [Skip.run, dif_pos (by rfl)]
  have hrun : Reader.skip.run s = .ok ((), r) := by
    show (Skip.run ⟨.value, [], s⟩).map _ = _
    rw [Skip.skips x hs ha hr, hdone]
    rfl
  rw [hrun]
  simp [eq_comm]

end NativeTypes.Json
