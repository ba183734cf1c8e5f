import NativeTypes.Proofs.Json.Raw.Numerals
import NativeTypes.Proofs.Json.Raw.Strings

/-! # Reading a JSON text of known structure

`Takes reader x f` says what a reader does where a text that has been taken apart as `x` comes next:
it reads the result `f` and leaves what is left after `x`, or, where there is no result, it fails.
So it neither stops early nor goes on too far, and it does not depend on the spelling.

Lists and objects are taken item by item (`items_run_iff`, `fields_run_iff`). -/

namespace NativeTypes.Json

/-! ### Induction over the structure -/

theorem Raw.sizeOf_lt_of_mem_fields {f : List Char × Raw} {fs : List (List Char × Raw)}
    (h : f ∈ fs) : sizeOf f.2 < sizeOf fs := by
  have := List.sizeOf_lt_of_mem h
  obtain ⟨k, x⟩ := f
  simp at this ⊢
  omega

/-- **Induction over the items and fields.** -/
@[elab_as_elim]
theorem Raw.induction_parts {motive : Raw → Prop} (null : motive .null)
    (boolean : ∀ b, motive (.boolean b)) (number : ∀ w, motive (.number w))
    (string : ∀ w, motive (.string w)) (array : ∀ xs, (∀ x ∈ xs, motive x) → motive (.array xs))
    (object : ∀ fs, (∀ f ∈ fs, motive f.2) → motive (.object fs)) (x : Raw) : motive x :=
  match x with
  | .null => null
  | .boolean b => boolean b
  | .number w => number w
  | .string w => string w
  | .array xs => array xs fun y _ => induction_parts null boolean number string array object y
  | .object fs => object fs fun f _ => induction_parts null boolean number string array object f.2
termination_by sizeOf x
decreasing_by
  · have := List.sizeOf_lt_of_mem ‹y ∈ xs›
    simp
    omega
  · have := sizeOf_lt_of_mem_fields ‹f ∈ fs›
    simp
    omega

theorem Raw.Spells.exists_bracket {xs : List Raw} {a r : List Char}
    (h : (Raw.array xs).Spells a r) : ∃ t, a = '[' :: t := by
  cases xs with
  | nil =>
    obtain ⟨t, rfl, -⟩ := h
    exact ⟨t, rfl⟩
  | cons x xs =>
    obtain ⟨t, _, _, rfl, -⟩ := h
    exact ⟨t, rfl⟩

theorem Raw.Spells.exists_brace {fs : List (List Char × Raw)} {a r : List Char}
    (h : (Raw.object fs).Spells a r) : ∃ t, a = '{' :: t := by
  cases fs with
  | nil =>
    obtain ⟨t, rfl, -⟩ := h
    exact ⟨t, rfl⟩
  | cons f fs =>
    obtain ⟨t, _, _, rfl, -⟩ := h
    exact ⟨t, rfl⟩

/-- A value starts with a character that is no blank and closes nothing. -/
theorem Raw.Spells.head {x : Raw} {s r : List Char} (h : x.Spells s r) :
    ∃ c t, s = c :: t ∧ isBlank c = false ∧ c ≠ ']' := by
  cases x with
  | null => exact ⟨'n', _, h, rfl, by decide⟩
  | boolean b => cases b <;> exact ⟨_, _, h, rfl, by decide⟩
  | number w =>
    obtain ⟨hw, rfl⟩ := h
    obtain ⟨c, t, rfl, hc⟩ := head_of_isNumber hw
    refine ⟨c, t ++ r, rfl, ?_, ?_⟩
    · rw [Bool.eq_false_iff, Ne, isBlank_iff]
      rintro hb
      simp only [List.mem_cons, List.not_mem_nil, or_false] at hb
      rcases hb with rfl | rfl | rfl | rfl <;> rcases hc with hc | hc <;>
        exact absurd hc (by decide)
    · rintro rfl
      rcases hc with hc | hc <;> exact absurd hc (by decide)
  | string w =>
    obtain ⟨-, rfl⟩ := h
    exact ⟨'"', _, rfl, rfl, by decide⟩
  | array xs =>
    obtain ⟨t, rfl⟩ := h.exists_bracket
    exact ⟨'[', t, rfl, rfl, by decide⟩
  | object fs =>
    obtain ⟨t, rfl⟩ := h.exists_brace
    exact ⟨'{', t, rfl, rfl, by decide⟩

/-- Only a list starts with a bracket, and only an object with a brace. -/
theorem Raw.Spells.of_head {x : Raw} {a t r : List Char} (h : x.Spells a r) :
    (a = '[' :: t → ∃ xs, x = .array xs) ∧ (a = '{' :: t → ∃ fs, x = .object fs) := by
  cases x with
  | array xs =>
    obtain ⟨u, rfl⟩ := h.exists_bracket
    exact ⟨fun _ => ⟨xs, rfl⟩, nofun⟩
  | object fs =>
    obtain ⟨u, rfl⟩ := h.exists_brace
    exact ⟨nofun, fun _ => ⟨fs, rfl⟩⟩
  | null =>
    cases h
    exact ⟨nofun, nofun⟩
  | boolean b =>
    cases b <;>
    · cases h
      exact ⟨nofun, nofun⟩
  | string w =>
    obtain ⟨-, rfl⟩ := h
    exact ⟨nofun, nofun⟩
  | number w =>
    obtain ⟨hw, rfl⟩ := h
    obtain ⟨c, v, rfl, hc⟩ := head_of_isNumber hw
    constructor <;>
    · intro ha
      cases ha
      rcases hc with hc | hc <;> exact absurd hc (by decide)

theorem Raw.Spells.blank_eq {x : Raw} {s a r : List Char} (h : x.Spells a r) (hb : Blanks s a) :
    blank s = a := by
  obtain ⟨c, t, rfl, hc, -⟩ := h.head
  exact hb.blank_eq_cons hc

/-- A field starts with the quote that opens its name. -/
theorem Raw.SpellsField.head {f : List Char × Raw} {s r : List Char} (h : SpellsField f s r) :
    ∃ t, s = '"' :: t := by
  obtain ⟨k, x⟩ := f
  obtain ⟨a, t, b, ⟨-, rfl⟩, -⟩ := h
  exact ⟨_, rfl⟩

/-! ### What follows -/

theorem Raw.SpellsMoreItems.endsValue {xs : List Raw} {s r : List Char}
    (h : SpellsMoreItems xs s r) : EndsValue s := by
  have mark : ∀ {c t}, c ∈ [',', ']'] → EndsValue (c :: t) := by
    rintro c t hc d u hd
    cases hd
    have hall : ∀ c ∈ [',', ']'], c ∈ [' ', '\n', '\r', '\t', ',', ']', '}'] := by simp
    exact hall c hc
  cases xs with
  | nil => exact Blanks.endsValue h (mark (by decide))
  | cons x xs =>
    obtain ⟨t, a, b, hs, -⟩ := h
    exact hs.endsValue (mark (by decide))

theorem Raw.SpellsMoreFields.endsValue {fs : List (List Char × Raw)} {s r : List Char}
    (h : SpellsMoreFields fs s r) : EndsValue s := by
  have mark : ∀ {c t}, c ∈ [',', '}'] → EndsValue (c :: t) := by
    rintro c t hc d u hd
    cases hd
    have hall : ∀ c ∈ [',', '}'], c ∈ [' ', '\n', '\r', '\t', ',', ']', '}'] := by simp
    exact hall c hc
  cases fs with
  | nil => exact Blanks.endsValue h (mark (by decide))
  | cons f fs =>
    obtain ⟨t, a, b, hs, -⟩ := h
    exact hs.endsValue (mark (by decide))

theorem Raw.Spells.firstItem {x : Raw} {s a r : List Char} (ha : x.Spells a r) (h : Blanks s a) :
    firstItem s = .ok (.more a) := by
  obtain ⟨c, t, rfl, hc, hne⟩ := ha.head
  simp [Json.firstItem, h.blank_eq_cons hc, hne]

theorem Raw.Spells.afterItem {x : Raw} {s t a r : List Char} (ha : x.Spells a r)
    (h : Blanks s (',' :: t)) (ht : Blanks t a) : afterItem s = .ok (.more a) := by
  obtain ⟨c, u, rfl, hc, hne⟩ := ha.head
  simp [Json.afterItem, h.blank_eq_cons rfl, ht.blank_eq_cons hc, hne]

/-! ### Lists -/

/-- Where `x` comes next, a reader reads the result `f` and leaves what is left after `x`; where
there is no result, it fails. -/
def Takes {α : Type} (reader : Reader α) (x : Raw) (f : Option α) : Prop :=
  ∀ {s a r u : List Char} {v : α}, Blanks s a → x.Spells a r → EndsValue r →
    (reader.run s = .ok (v, u) ↔ f = some v ∧ u = r)

theorem Takes.map {α β : Type} {reader : Reader α} {x : Raw} {f : Option α}
    (h : Takes reader x f) (g : α → β) : Takes (reader.map g) x (f.map g) := by
  intro s a r u v hs ha hr
  rw [map_run_eq_ok_iff, Option.map_eq_some_iff]
  constructor
  · rintro ⟨w, hw, rfl⟩
    obtain ⟨hf, rfl⟩ := (h hs ha hr).1 hw
    exact ⟨⟨w, hf, rfl⟩, rfl⟩
  · rintro ⟨⟨w, hf, rfl⟩, rfl⟩
    exact ⟨w, (h hs ha hr).2 ⟨hf, rfl⟩, rfl⟩

section Items

variable {α : Type} {item : Reader α} {f : Raw → Option α}

theorem itemsFrom_run_iff {x : Raw} {xs : List Raw} (h : ∀ y ∈ x :: xs, Takes item y (f y))
    {s a b r u : List Char} {vs : List α} (hs : Blanks s a) (ha : x.Spells a b)
    (hb : Raw.SpellsMoreItems xs b r) :
    itemsFrom item s = .ok (vs, u) ↔ (x :: xs).mapM f = some vs ∧ u = r := by
  induction xs generalizing x s a b vs with
  | nil =>
    rw [List.forall_mem_singleton] at h
    have hn : afterItem b = .ok (.close r) := afterItem_close hb
    rw [itemsFrom_eq_ok_iff]
    constructor
    · rintro ⟨v, t, hv, ht⟩
      obtain ⟨hf, rfl⟩ := (h hs ha hb.endsValue).1 hv
      rcases ht with ⟨ht, rfl⟩ | ⟨w, bs, ht, -⟩
      · cases hn.symm.trans ht
        exact ⟨by simp [hf], rfl⟩
      · cases hn.symm.trans ht
    · rintro ⟨hvs, rfl⟩
      rw [List.mapM_cons, List.mapM_nil] at hvs
      obtain ⟨v, hf, hvs⟩ := Option.bind_eq_some_iff.1 hvs
      cases hvs
      exact ⟨v, b, (h hs ha hb.endsValue).2 ⟨hf, rfl⟩, .inl ⟨hn, rfl⟩⟩
  | cons y ys ih =>
    rw [List.forall_mem_cons] at h
    obtain ⟨t, a', b', hbt, hta, hy, hys⟩ := hb
    have hn : afterItem b = .ok (.more a') := hy.afterItem hbt hta
    have hmore : Raw.SpellsMoreItems (y :: ys) b r := ⟨t, a', b', hbt, hta, hy, hys⟩
    have hends : EndsValue b := hmore.endsValue
    rw [itemsFrom_eq_ok_iff, List.mapM_cons]
    constructor
    · rintro ⟨v, t, hv, ht⟩
      obtain ⟨hf, rfl⟩ := (h.1 hs ha hends).1 hv
      rcases ht with ⟨ht, -⟩ | ⟨w, bs, ht, hbs, rfl⟩
      · cases hn.symm.trans ht
      · cases hn.symm.trans ht
        obtain ⟨hm, rfl⟩ := (ih h.2 (blanks_refl _) hy hys).1 hbs
        exact ⟨by rw [hf, hm]; rfl, rfl⟩
    · rintro ⟨hvs, rfl⟩
      obtain ⟨v, hf, hvs⟩ := Option.bind_eq_some_iff.1 hvs
      obtain ⟨ws, hm, hvs⟩ := Option.bind_eq_some_iff.1 hvs
      cases hvs
      exact ⟨v, b, (h.1 hs ha hends).2 ⟨hf, rfl⟩,
        .inr ⟨a', ws, hn, (ih h.2 (blanks_refl _) hy hys).2 ⟨hm, rfl⟩, rfl⟩⟩

/-- **A list is taken item by item.** -/
theorem items_run_iff {xs : List Raw} (h : ∀ x ∈ xs, Takes item x (f x)) {t r u : List Char}
    {vs : List α} (ht : (Raw.array xs).Spells ('[' :: t) r) :
    items item t = .ok (vs, u) ↔ xs.mapM f = some vs ∧ u = r := by
  rw [items_eq_ok_iff]
  cases xs with
  | nil =>
    obtain ⟨_, ht, hr⟩ := ht
    cases ht
    have hn : firstItem t = .ok (.close r) := firstItem_close hr
    constructor
    · rintro (⟨hc, rfl⟩ | ⟨w, hw, -⟩)
      · cases hn.symm.trans hc
        exact ⟨rfl, rfl⟩
      · cases hn.symm.trans hw
    · rintro ⟨hvs, rfl⟩
      cases hvs
      exact .inl ⟨hn, rfl⟩
  | cons x xs =>
    obtain ⟨_, a, b, ht, hta, hx, hxs⟩ := ht
    cases ht
    have hn : firstItem t = .ok (.more a) := hx.firstItem hta
    rw [← itemsFrom_run_iff h (blanks_refl a) hx hxs]
    constructor
    · rintro (⟨hc, -⟩ | ⟨w, hw, hvs⟩)
      · cases hn.symm.trans hc
      · cases hn.symm.trans hw
        exact hvs
    · intro hvs
      exact .inr ⟨a, hn, hvs⟩

end Items

/-! ### Objects -/

/-- Where the value `x` of a field comes next, the fields are read on as the step says. -/
def TakesField {σ : Type} (field : σ → String → Except Mismatch (Reader σ))
    (step : σ → String → Raw → Option σ) (x : Raw) : Prop :=
  ∀ st n, match field st n with
    | .ok reader => Takes reader x (step st n x)
    | .error _ => step st n x = none

/-- Goes over the fields of an object whose names make texts. -/
def foldFields {σ : Type} (step : σ → String → Raw → Option σ) (st : σ)
    (fs : List (List Char × Raw)) : Option σ :=
  fs.foldlM (fun st f => (unquote? f.1).bind fun n => step st n f.2) st

section Fields

variable {σ : Type} {field : σ → String → Except Mismatch (Reader σ)}
  {step : σ → String → Raw → Option σ}

theorem TakesField.run_iff {x : Raw} (h : TakesField field step x) {st st' : σ} {n : String}
    {s a r u : List Char} (hs : Blanks s a) (ha : x.Spells a r) (hr : EndsValue r) :
    (∃ reader, field st n = .ok reader ∧ reader.run s = .ok (st', u)) ↔
      step st n x = some st' ∧ u = r := by
  have hn := h st n
  split at hn
  · rename_i reader hf
    rw [← hn hs ha hr]
    simp only [hf, Except.ok.injEq, exists_eq_left']
  · rename_i m hf
    simp [hf, hn]

/-- One step over a field. -/
theorem fieldsFrom_field_iff {k : List Char} {x : Raw} {st st' : σ} {s a t b c r : List Char}
    {n : Next} (h : TakesField field step x) (hk : Quotable k) (hs : s = k ++ '"' :: a)
    (ha : Blanks a (':' :: t)) (ht : Blanks t b) (hx : x.Spells b c) (hc : EndsValue c)
    (hn : afterField c = .ok n) :
    fieldsFrom field st s = .ok (st', r) ↔
      ∃ mid, ((unquote? k).bind fun n => step st n x) = some mid ∧
        (n = .close r ∧ st' = mid ∨ ∃ w, n = .more w ∧ fieldsFrom field mid w = .ok (st', r)) := by
  subst hs
  have hcolon : colon a = .ok t := colon_of_blanks ha
  rw [fieldsFrom_eq_ok_iff]
  constructor
  · rintro ⟨k', t', reader, u, mid, v, hk', hf, hu, hv, hend⟩
    obtain ⟨hq, rfl⟩ := (stringRest_append_iff hk).1 hk'
    cases hcolon.symm.trans hu
    obtain ⟨hst, rfl⟩ := (h.run_iff ht hx hc).1 ⟨reader, hf, hv⟩
    refine ⟨mid, by rw [hq, Option.bind_some, hst], ?_⟩
    simpa [hn] using hend
  · rintro ⟨mid, hm, hend⟩
    obtain ⟨name, hq, hst⟩ := Option.bind_eq_some_iff.1 hm
    obtain ⟨reader, hf, hv⟩ := (h.run_iff ht hx hc).2 ⟨hst, rfl⟩
    have hk' : stringRest (k ++ '"' :: a) = .ok (name.toList, a) :=
      (stringRest_append_iff hk).2 ⟨by rw [hq, name.ofList_toList], rfl⟩
    refine ⟨name.toList, a, reader, t, mid, c, hk', by rwa [name.ofList_toList], hcolon, hv, ?_⟩
    simpa [hn] using hend

theorem fieldsFrom_run_iff {f : List Char × Raw} {fs : List (List Char × Raw)}
    (h : ∀ g ∈ f :: fs, TakesField field step g.2) {st st' : σ} {t a b r u : List Char}
    (ha : a = '"' :: t) (hf : Raw.SpellsField f a b) (hb : Raw.SpellsMoreFields fs b r) :
    fieldsFrom field st t = .ok (st', u) ↔
      foldFields step st (f :: fs) = some st' ∧ u = r := by
  induction fs generalizing f st t a b with
  | nil =>
    obtain ⟨k, x⟩ := f
    rw [List.forall_mem_singleton] at h
    obtain ⟨a', t', b', ⟨hk, hq⟩, hcol, htb, hx⟩ := hf
    cases ha.symm.trans hq
    have hn : afterField b = .ok (.close r) := afterField_close hb
    rw [fieldsFrom_field_iff h hk rfl hcol htb hx hb.endsValue hn, foldFields, List.foldlM_cons]
    constructor
    · rintro ⟨mid, hm, ⟨hc, rfl⟩ | ⟨w, hw, -⟩⟩
      · cases hc
        exact ⟨by rw [hm]; rfl, rfl⟩
      · cases hw
    · rintro ⟨hm, rfl⟩
      obtain ⟨mid, hm, he⟩ := Option.bind_eq_some_iff.1 hm
      cases he
      exact ⟨st', hm, .inl ⟨rfl, rfl⟩⟩
  | cons g gs ih =>
    obtain ⟨k, x⟩ := f
    rw [List.forall_mem_cons] at h
    have hends := hb.endsValue
    obtain ⟨a', t', b', ⟨hk, hq⟩, hcol, htb, hx⟩ := hf
    cases ha.symm.trans hq
    obtain ⟨v, c, d, hbv, hvc, hg, hgs⟩ := hb
    obtain ⟨e, he⟩ := hg.head
    have hn : afterField b = .ok (.more e) := afterField_more hbv (he ▸ hvc)
    rw [fieldsFrom_field_iff h.1 hk rfl hcol htb hx hends hn, foldFields, List.foldlM_cons]
    constructor
    · rintro ⟨mid, hm, ⟨hc, -⟩ | ⟨w, hw, hrest⟩⟩
      · cases hc
      · cases hw
        obtain ⟨hfold, rfl⟩ := (ih h.2 he hg hgs).1 hrest
        exact ⟨Option.bind_eq_some_iff.2 ⟨mid, hm, hfold⟩, rfl⟩
    · rintro ⟨hm, rfl⟩
      obtain ⟨mid, hm, hfold⟩ := Option.bind_eq_some_iff.1 hm
      exact ⟨mid, hm, .inr ⟨e, rfl, (ih h.2 he hg hgs).2 ⟨hfold, rfl⟩⟩⟩

/-- **An object is taken field by field.** -/
theorem fields_run_iff {fs : List (List Char × Raw)} (h : ∀ f ∈ fs, TakesField field step f.2)
    {st st' : σ} {t r u : List Char} (ht : (Raw.object fs).Spells ('{' :: t) r) :
    fields field st t = .ok (st', u) ↔ foldFields step st fs = some st' ∧ u = r := by
  rw [fields_eq_ok_iff]
  cases fs with
  | nil =>
    obtain ⟨_, ht, hr⟩ := ht
    cases ht
    have hn : firstField t = .ok (.close r) := firstField_close hr
    constructor
    · rintro (⟨hc, rfl⟩ | ⟨w, hw, -⟩)
      · cases hn.symm.trans hc
        exact ⟨rfl, rfl⟩
      · cases hn.symm.trans hw
    · rintro ⟨hst, rfl⟩
      cases hst
      exact .inl ⟨hn, rfl⟩
  | cons f fs =>
    obtain ⟨_, a, b, ht, hta, hf, hfs⟩ := ht
    cases ht
    obtain ⟨e, he⟩ := hf.head
    have hn : firstField t = .ok (.more e) := firstField_more (he ▸ hta)
    rw [← fieldsFrom_run_iff h he hf hfs]
    constructor
    · rintro (⟨hc, -⟩ | ⟨w, hw, hst⟩)
      · cases hn.symm.trans hc
      · cases hn.symm.trans hw
        exact hst
    · intro hst
      exact .inr ⟨e, hn, hst⟩

end Fields

end NativeTypes.Json
