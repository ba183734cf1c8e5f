import Mathlib.Data.List.TakeWhile
import NativeTypes.Proofs.Json.Raw.Reading
import NativeTypes.Proofs.Json.Raw.Tokens

/-! # What is read is spelled

The converse of `Takes`: what a reader takes off the front of a text is the spelling of some JSON
text (`Spelled`). A list or an object is spelled if its items or fields are, whatever is made of
them (`spells_of_items`, `spells_of_fields`).

A value that is skipped is taken off step by step. There the induction is on the steps, and it
carries along what is left of the lists and objects that are open (`Skip.Closes`). -/

namespace NativeTypes.Json

/-! ### Blanks -/

theorem blanks_blank (s : List Char) : Blanks s (blank s) := by
  refine ⟨s.takeWhile isBlank, (List.takeWhile_append_dropWhile).symm, fun c hc => ?_⟩
  exact isBlank_iff.1 (List.mem_takeWhile_imp hc)

theorem blank_blank (s : List Char) : blank (blank s) = blank s :=
  (blanks_blank s).blank_eq.symm

theorem blanks_of_blank_eq {s t : List Char} (h : blank s = t) : Blanks s t :=
  h ▸ blanks_blank s

/-! ### Readers -/

/-- What the reader takes off the front of a text is the spelling of some JSON text. -/
def Spelled {α : Type} (reader : Reader α) : Prop :=
  ∀ {s r : List Char} {v : α}, reader.run s = .ok (v, r) → ∃ x : Raw, x.Spells (blank s) r

theorem Spelled.map {α β : Type} {reader : Reader α} (h : Spelled reader) (f : α → β) :
    Spelled (reader.map f) := by
  intro s r v hv
  obtain ⟨a, ha, -⟩ := map_run_eq_ok_iff.1 hv
  exact h ha

/-! ### Lists -/

theorem blank_of_firstItem {s : List Char} {n : Next} (h : firstItem s = .ok n) :
    (∃ r, n = .close r ∧ blank s = ']' :: r) ∨ n = .more (blank s) := by
  unfold firstItem at h
  split at h
  · cases h
  · rename_i hs
    cases h
    exact .inl ⟨_, rfl, hs⟩
  · cases h
    exact .inr rfl

theorem blank_of_afterItem {s : List Char} {n : Next} (h : afterItem s = .ok n) :
    (∃ r, n = .close r ∧ blank s = ']' :: r) ∨ ∃ t, n = .more (blank t) ∧ blank s = ',' :: t := by
  unfold afterItem at h
  split at h
  · cases h
  · rename_i hs
    cases h
    exact .inl ⟨_, rfl, hs⟩
  · rename_i hs
    split at h
    · cases h
    · cases h
    · cases h
      exact .inr ⟨_, rfl, hs⟩
  · cases h

theorem spells_of_itemsFrom {α : Type} {item : Reader α} (h : Spelled item) {s r : List Char}
    {vs : List α} (hs : itemsFrom item s = .ok (vs, r)) :
    ∃ x xs t, Raw.Spells x (blank s) t ∧ Raw.SpellsMoreItems xs t r := by
  fun_induction itemsFrom item s generalizing vs r with
  | case1 | case2 | case4 => cases hs
  | case3 s v t hv u hu =>
    cases hs
    obtain ⟨x, hx⟩ := h hv
    rcases blank_of_afterItem hu with ⟨_, he, ht⟩ | ⟨_, he, -⟩ <;> cases he
    exact ⟨x, [], t, hx, blanks_of_blank_eq ht⟩
  | case5 s v t hv u hu ws w hw ih =>
    cases hs
    obtain ⟨x, hx⟩ := h hv
    obtain ⟨y, ys, b, hy, hys⟩ := ih hw
    rcases blank_of_afterItem hu with ⟨_, he, -⟩ | ⟨c, he, ht⟩ <;> cases he
    rw [blank_blank] at hy
    exact ⟨x, y :: ys, t, hx, c, _, b, blanks_of_blank_eq ht, blanks_blank c, hy, hys⟩

theorem spells_of_items {α : Type} {item : Reader α} (h : Spelled item) {s r : List Char}
    {vs : List α} (hs : items item s = .ok (vs, r)) : ∃ x : Raw, x.Spells ('[' :: s) r := by
  rcases items_eq_ok_iff.1 hs with ⟨hn, -⟩ | ⟨t, hn, hvs⟩
  · rcases blank_of_firstItem hn with ⟨_, he, hs⟩ | he <;> cases he
    exact ⟨.array [], s, rfl, blanks_of_blank_eq hs⟩
  · rcases blank_of_firstItem hn with ⟨_, he, -⟩ | he <;> cases he
    obtain ⟨x, xs, u, hx, hxs⟩ := spells_of_itemsFrom h hvs
    rw [blank_blank] at hx
    exact ⟨.array (x :: xs), s, _, u, rfl, blanks_blank s, hx, hxs⟩

/-! ### Objects -/

theorem blank_of_firstField {s : List Char} {n : Next} (h : firstField s = .ok n) :
    (∃ r, n = .close r ∧ blank s = '}' :: r) ∨ ∃ t, n = .more t ∧ blank s = '"' :: t := by
  unfold firstField at h
  split at h
  · cases h
  · rename_i hs
    cases h
    exact .inl ⟨_, rfl, hs⟩
  · rename_i hs
    cases h
    exact .inr ⟨_, rfl, hs⟩
  · cases h

theorem blank_of_afterField {s : List Char} {n : Next} (h : afterField s = .ok n) :
    (∃ r, n = .close r ∧ blank s = '}' :: r) ∨
      ∃ t u, n = .more u ∧ blank s = ',' :: t ∧ blank t = '"' :: u := by
  unfold afterField at h
  split at h
  · cases h
  · rename_i hs
    cases h
    exact .inl ⟨_, rfl, hs⟩
  · rename_i hs
    split at h
    · cases h
    · rename_i ht
      cases h
      exact .inr ⟨_, _, rfl, hs, ht⟩
    · cases h
    · cases h
  · cases h

theorem blank_of_colon {s r : List Char} (h : colon s = .ok r) : blank s = ':' :: r := by
  unfold colon at h
  split at h
  · cases h
  · rename_i hs
    cases h
    exact hs
  · cases h

section Fields

variable {σ : Type} {field : σ → String → Except Mismatch (Reader σ)}

/-- Every reader of a field takes off the spelling of some JSON text. -/
def SpelledFields (field : σ → String → Except Mismatch (Reader σ)) : Prop :=
  ∀ {st n reader}, field st n = .ok reader → Spelled reader

theorem spellsField_of_parts {reader : Reader σ} (h : Spelled reader)
    {s t u v k : List Char} {st : σ} (hk : stringRest s = .ok (k, t)) (hc : colon t = .ok u)
    (hv : reader.run u = .ok (st, v)) : ∃ f, Raw.SpellsField f ('"' :: s) v := by
  obtain ⟨w, hw, rfl⟩ := exists_quotable (skipString_of_stringRest hk)
  obtain ⟨x, hx⟩ := h hv
  exact ⟨(w, x), t, u, _, ⟨hw, rfl⟩, blanks_of_blank_eq (blank_of_colon hc), blanks_blank u, hx⟩

theorem spells_of_fieldsFrom (h : SpelledFields field) {st st' : σ} {s r : List Char}
    (hs : fieldsFrom field st s = .ok (st', r)) :
    ∃ f fs t, Raw.SpellsField f ('"' :: s) t ∧ Raw.SpellsMoreFields fs t r := by
  fun_induction fieldsFrom field st s with
  | case1 | case2 | case3 | case4 | case5 => cases hs
  | case6 st s k t hk reader hf u hc mid v hv w hn =>
    cases hs
    obtain ⟨f, hfield⟩ := spellsField_of_parts (h hf) hk hc hv
    rcases blank_of_afterField hn with ⟨_, he, hb⟩ | ⟨_, _, he, -⟩ <;> cases he
    exact ⟨f, [], v, hfield, blanks_of_blank_eq hb⟩
  | case7 st s k t hk reader hf u hc mid v hv w hn ih =>
    obtain ⟨f, hfield⟩ := spellsField_of_parts (h hf) hk hc hv
    obtain ⟨g, gs, b, hg, hgs⟩ := ih hs
    rcases blank_of_afterField hn with ⟨_, he, -⟩ | ⟨c, _, he, hb, hw⟩ <;> cases he
    exact ⟨f, g :: gs, v, hfield, c, _, b, blanks_of_blank_eq hb, blanks_of_blank_eq hw, hg, hgs⟩

theorem spells_of_fields (h : SpelledFields field) {st st' : σ} {s r : List Char}
    (hs : fields field st s = .ok (st', r)) : ∃ x : Raw, x.Spells ('{' :: s) r := by
  rcases fields_eq_ok_iff.1 hs with ⟨hn, -⟩ | ⟨t, hn, hst⟩
  · rcases blank_of_firstField hn with ⟨_, he, hb⟩ | ⟨_, he, -⟩ <;> cases he
    exact ⟨.object [], s, rfl, blanks_of_blank_eq hb⟩
  · rcases blank_of_firstField hn with ⟨_, he, -⟩ | ⟨_, he, hb⟩ <;> cases he
    obtain ⟨f, fs, u, hf, hfs⟩ := spells_of_fieldsFrom h hst
    exact ⟨.object (f :: fs), s, _, u, rfl, blanks_of_blank_eq hb, hf, hfs⟩

end Fields

/-! ### Values -/

/-- **A value that is read is spelled.** -/
theorem spelled_value (d : Nat) : Spelled (Reader.value d) := by
  induction d with
  | zero =>
    intro s r j h
    rcases value_run_eq_ok_iff.1 h with ⟨_, _, _, _, hd, _⟩ | ⟨_, _, _, _, hd, _⟩ | h
    · cases hd
    · cases hd
    · exact exists_raw_of_scalar? h
  | succ d ih =>
    intro s r j h
    rcases value_run_eq_ok_iff.1 h with ⟨t, e, js, ht, hd, hjs, -⟩ | ⟨t, e, fs, ht, hd, hfs, -⟩ | h
    · cases hd
      exact ht ▸ spells_of_items ih hjs
    · cases hd
      rw [← fs.reverse_reverse] at hfs
      refine ht ▸ spells_of_fields ?_ (fields_rawField_eq_ok_iff.2 hfs)
      intro st n reader hr
      cases hr
      exact ih.map _
    · exact exists_raw_of_scalar? h

/-! ### Values that are skipped -/

namespace Skip

/-- What is left where a value ends that is open inside lists and objects: what follows the value in
each of them. -/
def Closes : List Bracket → List Char → List Char → Prop
  | [], s, r => s = r
  | .list :: opened, s, r => ∃ xs t, Raw.SpellsMoreItems xs s t ∧ Closes opened t r
  | .object :: opened, s, r => ∃ fs t, Raw.SpellsMoreFields fs s t ∧ Closes opened t r

/-- What a skip goes over from where it stands. -/
def Spells (k : Skip) (r : List Char) : Prop :=
  match k.awaited with
  | .value => ∃ (x : Raw) (t : List Char), x.Spells (blank k.rest) t ∧ Closes k.opened t r
  | .name => ∃ f t, Raw.SpellsField f (blank k.rest) t ∧ Closes k.opened t r
  | .comma => Closes k.opened k.rest r

/-- What is gone over in one step and after it. -/
theorem spells_of_step {k l : Skip} {r : List Char} (h : k.step = .ok l) (hl : l.Spells r) :
    k.Spells r := by
  obtain ⟨awaited, opened, s⟩ := k
  cases awaited with
  | value =>
    simp only [step] at h
    show ∃ (x : Raw) (t : List Char), x.Spells (blank s) t ∧ Closes opened t r
    split at h
    · rename_i t hs
      rw [hs]
      split at h
      · cases h
      · rename_i u ht
        cases h
        exact ⟨.array [], u, ⟨t, rfl, blanks_of_blank_eq ht⟩, hl⟩
      · cases h
        obtain ⟨x, a, hx, xs, b, hxs, ho⟩ := hl
        rw [blank_blank] at hx
        exact ⟨.array (x :: xs), b, ⟨t, _, a, rfl, blanks_blank t, hx, hxs⟩, ho⟩
    · rename_i t hs
      rw [hs]
      split at h
      · cases h
      · rename_i u ht
        cases h
        exact ⟨.object [], u, ⟨t, rfl, blanks_of_blank_eq ht⟩, hl⟩
      · cases h
        obtain ⟨f, a, hf, fs, b, hfs, ho⟩ := hl
        rw [blank_blank] at hf
        exact ⟨.object (f :: fs), b, ⟨t, _, a, rfl, blanks_blank t, hf, hfs⟩, ho⟩
    · obtain ⟨t, ht, rfl⟩ := map_eq_ok h
      obtain ⟨x, hx⟩ := exists_raw_of_skipScalar ht
      exact ⟨x, t, hx, hl⟩
  | name =>
    simp only [step] at h
    show ∃ f t, Raw.SpellsField f (blank s) t ∧ Closes opened t r
    split at h
    · cases h
    · rename_i t hs
      rw [hs]
      obtain ⟨v, hv, rfl⟩ := map_eq_ok h
      cases hq : skipString t with
      | error f =>
        rw [hq] at hv
        cases hv
      | ok u =>
        rw [hq] at hv
        obtain ⟨w, hw, rfl⟩ := exists_quotable hq
        obtain ⟨x, a, hx, ho⟩ := hl
        exact ⟨(w, x), a, ⟨u, v, _, ⟨hw, rfl⟩, blanks_of_blank_eq (blank_of_colon hv),
          blanks_blank v, hx⟩, ho⟩
    · cases h
  | comma =>
    simp only [step] at h
    show Closes opened s r
    split at h
    · cases h
      exact hl
    · split at h
      · cases h
      · rename_i t hs
        cases h
        obtain ⟨x, a, hx, xs, b, hxs, ho⟩ := hl
        exact ⟨x :: xs, b, ⟨t, _, a, blanks_of_blank_eq hs, blanks_blank t, hx, hxs⟩, ho⟩
      · rename_i t hs
        cases h
        exact ⟨[], t, blanks_of_blank_eq hs, hl⟩
      · cases h
    · split at h
      · cases h
      · rename_i t hs
        cases h
        obtain ⟨f, a, hf, fs, b, hfs, ho⟩ := hl
        exact ⟨f :: fs, b, ⟨t, _, a, blanks_of_blank_eq hs, blanks_blank t, hf, hfs⟩, ho⟩
      · rename_i t hs
        cases h
        exact ⟨[], t, blanks_of_blank_eq hs, hl⟩
      · cases h

theorem spells_of_run {k : Skip} {r : List Char} (h : k.run = .ok r) : k.Spells r := by
  fun_induction run k with
  | case1 k hk =>
    cases h
    unfold isDone at hk
    split at hk
    · rfl
    · cases hk
  | case2 => cases h
  | case3 k hk l hl ih => exact spells_of_step hl (ih h)

end Skip

theorem spelled_skip : Spelled Reader.skip := by
  intro s r v h
  obtain ⟨t, ht, he⟩ := map_eq_ok h
  cases he
  obtain ⟨x, u, hx, rfl⟩ := Skip.spells_of_run ht
  exact ⟨x, hx⟩

/-! ### Whole texts -/

/-- What a text is decoded to by a reader of which it is known what it takes. -/
theorem decode_eq_ok_iff_of_isText {α : Type} {reader : Reader α} {x : Raw} {o : Option α}
    (ht : Takes reader x o) {s : String} (hx : x.IsText s) {v : α} :
    reader.decode s = .ok v ↔ o = some v := by
  obtain ⟨a, b, ha, hab, hb⟩ := hx
  have hrun : ∀ {u}, reader.run s.toList = .ok (v, u) ↔ o = some v ∧ u = b :=
    ht ha hab (hb.endsValue endsValue_nil)
  rw [decode_eq_ok_iff]
  constructor
  · rintro ⟨r, hv, -⟩
    exact (hrun.1 hv).1
  · exact fun ho => ⟨b, hrun.2 ⟨ho, rfl⟩, hb.blank_eq_nil⟩

/-- **What is decoded, and to what**: the texts that the reader takes. -/
theorem decode_eq_ok_iff_exists_raw {α : Type} {reader : Reader α} {f : Raw → Option α}
    (ht : ∀ x, Takes reader x (f x)) (hs : Spelled reader) {s : String} {v : α} :
    reader.decode s = .ok v ↔ ∃ x : Raw, x.IsText s ∧ f x = some v := by
  constructor
  · intro h
    obtain ⟨r, hv, hr⟩ := decode_eq_ok_iff.1 h
    obtain ⟨x, hx⟩ := hs hv
    have hx : x.IsText s := ⟨_, r, blanks_blank _, hx, blanks_of_blank_eq hr⟩
    exact ⟨x, hx, (decode_eq_ok_iff_of_isText (ht x) hx).1 h⟩
  · rintro ⟨x, hx, hv⟩
    exact (decode_eq_ok_iff_of_isText (ht x) hx).2 hv

end NativeTypes.Json
