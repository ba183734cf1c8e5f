import NativeTypes.Json.Skip
import NativeTypes.Proofs.Json.Raw
import NativeTypes.Proofs.Json.Strings

/-! # Strings inside a text

What is read of a string depends on what stands between its quotes alone: it is read as the text
that this makes, and not at all where it makes none (`stringRest_append_iff`). To skip a string it
is enough that it is spelled well (`skipString_append`). -/

namespace NativeTypes.Json

/-- A text is read up to its closing quote, or it is not read at all; which of the two does not
depend on what comes after it. -/
def ReadsUniformly (w : List Char) : Prop :=
  (∃ cs, ∀ r, stringRest (w ++ '"' :: r) = .ok (cs, r)) ∨
    ∀ r, ∃ f, stringRest (w ++ '"' :: r) = .error f

theorem stringRest_of_escape_error {s : List Char} {f : Fault} (h : escape s = .error f) :
    stringRest ('\\' :: s) = .error f := by
  rw [stringRest]
  split
  · rename_i he
    rw [h] at he
    cases he
    rfl
  · rename_i he
    rw [h] at he
    cases he

theorem stringRest_of_escape {s t : List Char} {c : Char} (h : escape s = .ok (c, t)) :
    stringRest ('\\' :: s) = (stringRest t).map fun x => (c :: x.1, x.2) := by
  cases ht : stringRest t with
  | ok x => rw [stringRest_escape h ht]; rfl
  | error f =>
    rw [stringRest]
    split
    · rename_i he
      rw [h] at he
      cases he
    · rename_i he
      rw [h] at he
      cases he
      rw [ht]
      rfl

theorem stringRest_plain_eq {c : Char} {s : List Char} (h : ' ' ≤ c) (hq : c ≠ '"')
    (hb : c ≠ '\\') : stringRest (c :: s) = (stringRest s).map fun x => (c :: x.1, x.2) := by
  cases hs : stringRest s with
  | ok x => rw [stringRest_plain h hq hb hs]; rfl
  | error f =>
    rw [stringRest, if_neg (Char.not_lt.2 h), hs]
    · rfl
    · exact hq
    · exact hb

theorem ReadsUniformly.cons {w v : List Char} {c : Char} (h : ReadsUniformly w)
    (hv : ∀ r, stringRest (v ++ '"' :: r) =
      (stringRest (w ++ '"' :: r)).map fun x => (c :: x.1, x.2)) : ReadsUniformly v := by
  rcases h with ⟨cs, h⟩ | h
  · exact .inl ⟨c :: cs, fun r => by rw [hv, h]; rfl⟩
  · refine .inr fun r => ?_
    obtain ⟨f, hf⟩ := h r
    exact ⟨f, by rw [hv, hf]; rfl⟩

theorem SpellsUnit.append {n : Nat} {s w : List Char} (h : SpellsUnit n s w) (z : List Char) :
    SpellsUnit n (s ++ z) (w ++ z) := by
  obtain ⟨a, b, c, d, rfl, ha, hb, hc, hd⟩ := h
  exact ⟨a, b, c, d, rfl, ha, hb, hc, hd⟩

theorem SpellsUnit.length_lt {n : Nat} {s w : List Char} (h : SpellsUnit n s w) :
    w.length < s.length := by
  obtain ⟨a, b, c, d, rfl, -⟩ := h
  simp only [List.length_cons]
  omega

/-- The escape at the front of what is left after a backslash makes a character, or it makes none;
which of the two does not depend on what comes after the closing quote. -/
def EscapesUniformly (v : List Char) : Prop :=
  (∃ c w, Quotable w ∧ w.length < v.length ∧
    ∀ r, escape (v ++ '"' :: r) = .ok (c, w ++ '"' :: r)) ∨
    ∀ r, ∃ f, escape (v ++ '"' :: r) = .error f

theorem escapesUniformly_short {e c : Char} {w : List Char} (h : (e, c) ∈ shortEscapes)
    (hw : Quotable w) : EscapesUniformly (e :: w) :=
  .inl ⟨c, w, hw, by simp, fun _ => escape_of_spellsChar (.short h)⟩

/-- After a leading surrogate only a trailing one makes a character. -/
theorem secondSurrogate_quotable {w : List Char} (hw : Quotable w) (n : Nat) :
    (∃ c v, Quotable v ∧ v.length < w.length ∧
      ∀ r, secondSurrogate n (w ++ '"' :: r) = .ok (c, v ++ '"' :: r)) ∨
    ∀ r, ∃ f, secondSurrogate n (w ++ '"' :: r) = .error f := by
  cases hw with
  | nil => exact .inr fun r => ⟨_, rfl⟩
  | plain h hq hb hw =>
    refine .inr fun r => ?_
    rw [List.cons_append]
    unfold secondSurrogate
    split
    · exact ⟨_, rfl⟩
    · exact ⟨_, rfl⟩
    · rename_i he
      exact absurd (List.cons.inj he).1 hb
    · exact ⟨_, rfl⟩
    · exact ⟨_, rfl⟩
  | short h hw =>
    simp only [shortEscapes, List.mem_cons, Prod.mk.injEq, List.not_mem_nil, or_false] at h
    refine .inr fun r => ?_
    rcases h with ⟨rfl, rfl⟩ | ⟨rfl, rfl⟩ | ⟨rfl, rfl⟩ | ⟨rfl, rfl⟩ | ⟨rfl, rfl⟩ | ⟨rfl, rfl⟩ |
      ⟨rfl, rfl⟩ | ⟨rfl, rfl⟩ <;> exact ⟨_, rfl⟩
  | unit hm hv =>
    rename_i m s v
    have he : ∀ r, secondSurrogate n ('\\' :: 'u' :: s ++ '"' :: r) =
        if 0xDC00 ≤ m ∧ m ≤ 0xDFFF then .ok (pairedSurrogates n m, v ++ '"' :: r)
        else failHere .loneSurrogate (v ++ '"' :: r) := fun r => by
      simp only [List.cons_append, secondSurrogate, hexUnit_of_spellsUnit (hm.append ('"' :: r))]
    by_cases hl : 0xDC00 ≤ m ∧ m ≤ 0xDFFF
    · have := hm.length_lt
      refine .inl ⟨pairedSurrogates n m, v, hv, ?_, fun r => by rw [he, if_pos hl]⟩
      simp only [List.length_cons]
      omega
    · exact .inr fun r => ⟨_, by rw [he, if_neg hl]; rfl⟩

theorem escapesUniformly_unit {n : Nat} {s w : List Char} (h : SpellsUnit n s w)
    (hw : Quotable w) : EscapesUniformly ('u' :: s) := by
  have hlen := h.length_lt
  have he : ∀ r, escape ('u' :: s ++ '"' :: r) =
      if 0xDC00 ≤ n ∧ n ≤ 0xDFFF then failHere .loneSurrogate (w ++ '"' :: r)
      else if 0xD800 ≤ n ∧ n ≤ 0xDBFF then secondSurrogate n (w ++ '"' :: r)
      else .ok (Char.ofNat n, w ++ '"' :: r) := fun r => by
    simp only [List.cons_append, escape, hexEscape, hexUnit_of_spellsUnit (h.append ('"' :: r))]
  by_cases hl : 0xDC00 ≤ n ∧ n ≤ 0xDFFF
  · exact .inr fun r => ⟨_, by rw [he, if_pos hl]; rfl⟩
  simp only [if_neg hl] at he
  by_cases hh : 0xD800 ≤ n ∧ n ≤ 0xDBFF
  · simp only [if_pos hh] at he
    rcases secondSurrogate_quotable hw n with ⟨c, v, hv, hlt, hs⟩ | hs
    · refine .inl ⟨c, v, hv, ?_, fun r => by rw [he, hs]⟩
      simp only [List.length_cons]
      omega
    · exact .inr fun r => by rw [he]; exact hs r
  · refine .inl ⟨Char.ofNat n, w, hw, ?_, fun r => by rw [he, if_neg hh]⟩
    simp only [List.length_cons]
    omega

/-- What stands between the quotes of a string is read uniformly. The induction is on the length,
since two escapes may make one character. -/
theorem readsUniformly_of_quotable {w : List Char} (hw : Quotable w) : ReadsUniformly w := by
  induction hn : w.length using Nat.strongRecOn generalizing w with
  | ind n ih =>
    have escaped : ∀ {v}, w = '\\' :: v → EscapesUniformly v → ReadsUniformly w := by
      rintro v rfl (⟨c, u, hu, hlt, he⟩ | he)
      · rw [List.length_cons] at hn
        exact (ih u.length (by omega) hu rfl).cons fun r => stringRest_of_escape (he r)
      · refine .inr fun r => ?_
        obtain ⟨f, hf⟩ := he r
        exact ⟨f, stringRest_of_escape_error hf⟩
    cases hw with
    | nil => exact .inl ⟨[], fun r => by rw [List.nil_append, stringRest]⟩
    | plain h hq hb hw =>
      rename_i c w
      rw [List.length_cons] at hn
      exact (ih w.length (by omega) hw rfl).cons fun r => stringRest_plain_eq h hq hb
    | short h hw => exact escaped rfl (escapesUniformly_short h hw)
    | unit h hw => exact escaped rfl (escapesUniformly_unit h hw)

/-- **A string is read as the text that it makes**, whatever comes after it, and not at all where it
makes none. -/
theorem stringRest_append_iff {w r u cs : List Char} (hw : Quotable w) :
    stringRest (w ++ '"' :: r) = .ok (cs, u) ↔ unquote? w = some (String.ofList cs) ∧ u = r := by
  rcases readsUniformly_of_quotable hw with ⟨ds, h⟩ | h
  · rw [h, unquote?, h]
    constructor
    · intro he
      cases he
      exact ⟨rfl, rfl⟩
    · rintro ⟨he, rfl⟩
      rw [String.ofList_injective (Option.some.inj he)]
  · obtain ⟨f, hf⟩ := h r
    obtain ⟨g, hg⟩ := h []
    simp [hf, unquote?, hg]

/-! ### Strings that are skipped -/

theorem skipEscape_short {e c : Char} {s : List Char} (h : (e, c) ∈ shortEscapes) :
    skipEscape (e :: s) = .ok s := by
  simp only [shortEscapes, List.mem_cons, Prod.mk.injEq, List.not_mem_nil, or_false] at h
  rcases h with ⟨rfl, rfl⟩ | ⟨rfl, rfl⟩ | ⟨rfl, rfl⟩ | ⟨rfl, rfl⟩ | ⟨rfl, rfl⟩ | ⟨rfl, rfl⟩ |
    ⟨rfl, rfl⟩ | ⟨rfl, rfl⟩ <;> rfl

theorem skipString_escape {s t : List Char} (h : skipEscape s = .ok t) :
    skipString ('\\' :: s) = skipString t := by
  rw [skipString]
  split
  · rename_i he
    rw [h] at he
    cases he
  · rename_i he
    rw [h] at he
    cases he
    rfl

/-- **A string is skipped as a whole.** -/
theorem skipString_append {w : List Char} (hw : Quotable w) (r : List Char) :
    skipString (w ++ '"' :: r) = .ok r := by
  induction hw with
  | nil => rw [List.nil_append, skipString]
  | plain h hq hb hw ih =>
    rw [List.cons_append, skipString, if_neg (Char.not_lt.2 h)]
    · exact ih
    · exact hq
    · exact hb
  | short h hw ih => exact (skipString_escape (skipEscape_short h)).trans ih
  | @unit n s w h hw ih =>
    have hs : skipEscape ('u' :: (s ++ '"' :: r)) = .ok (w ++ '"' :: r) := by
      rw [skipEscape, hexUnit_of_spellsUnit (h.append ('"' :: r))]
      rfl
    exact (skipString_escape hs).trans ih

end NativeTypes.Json
