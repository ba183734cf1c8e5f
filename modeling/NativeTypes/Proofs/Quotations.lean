import Mathlib.Data.List.Basic
import NativeTypes.Default

/-! # The quoted strings of a default

A scanner takes a text apart into pieces, `Text.pieces`: a backslash takes the character after it
along, and every other character is a piece of its own. A text is a quotation,
`Text.IsQuotation`, if it starts with a quote and, after that, the first piece that is this quote by
itself is the last one, where no backslash is left alone or takes a line feed along.

* `Text.isQuoted_iff`: the strings in quotes are the quotations.
* `Text.pieces_append`: what follows a text does not change its pieces, unless its last backslash is
  still to take something along.
* `Text.IsQuotation.not_append`: a quotation with more text behind it is no quotation.
* `Ty.acceptsDefault_quotation`: **the defaults of the string primitives.** -/

namespace NativeTypes

namespace Text

/-! ### Pieces -/

/-- A piece of a text. -/
inductive Piece where
  | plain (c : Char)
  | escaped (c : Char)
  | dangling
deriving DecidableEq

/-- The pieces of a text, from its start. A backslash that was taken along takes nothing along
itself. -/
def pieces : List Char → List Piece
  | [] => []
  | [c] => [if c = '\\' then .dangling else .plain c]
  | c :: d :: r => if c = '\\' then .escaped d :: pieces r else .plain c :: pieces (d :: r)

theorem pieces_backslash (c : Char) (r : List Char) :
    pieces ('\\' :: c :: r) = .escaped c :: pieces r := by
  rw [pieces, if_pos rfl]

theorem pieces_cons {c : Char} (h : c ≠ '\\') (r : List Char) :
    pieces (c :: r) = .plain c :: pieces r := by
  cases r with
  | nil => simp only [pieces, if_neg h]
  | cons d r => rw [pieces, if_neg h]

theorem pieces_eq_nil_iff {s : List Char} : pieces s = [] ↔ s = [] := by
  fun_cases pieces s <;> simp

/-- **The pieces of a text do not depend on what follows**, unless its last backslash does. -/
theorem pieces_append {s : List Char} (h : .dangling ∉ pieces s) (t : List Char) :
    pieces (s ++ t) = pieces s ++ pieces t := by
  fun_induction pieces s with
  | case1 => rfl
  | case2 c =>
    have hc : c ≠ '\\' := by
      rintro rfl
      exact h List.mem_cons_self
    rw [if_neg hc]
    exact pieces_cons hc t
  | case3 d r ih =>
    have hr : .dangling ∉ pieces r := fun hm => h (List.mem_cons_of_mem _ hm)
    rw [List.cons_append, List.cons_append, pieces_backslash, ih hr, List.cons_append]
  | case4 c d r hc ih =>
    have hr : .dangling ∉ pieces (d :: r) := fun hm => h (List.mem_cons_of_mem _ hm)
    rw [List.cons_append, pieces_cons hc, ih hr, List.cons_append]

/-! ### Quotations -/

/-- **Pieces close a quote**: the first piece that is the quote by itself is the last one, and each
backslash takes a character along that is not a line feed. -/
structure Closes (q : Char) (ps : List Piece) : Prop where
  idxOf_add_one : ps.idxOf (.plain q) + 1 = ps.length
  not_escaped : .escaped '\n' ∉ ps
  not_dangling : .dangling ∉ ps

/-- A text in quotes, of which there are two kinds. -/
def IsQuotation (s : List Char) : Prop :=
  ∃ q ∈ ['\'', '"'], ∃ r, s = q :: r ∧ Closes q (pieces r)

theorem not_closes_nil (q : Char) : ¬ Closes q [] :=
  fun h => absurd h.idxOf_add_one (by simp)

theorem closes_cons_self {q : Char} {ps : List Piece} : Closes q (.plain q :: ps) ↔ ps = [] := by
  constructor
  · intro h
    have hl := h.idxOf_add_one
    rw [List.idxOf_cons_self, List.length_cons] at hl
    exact List.length_eq_zero_iff.1 (by omega)
  · rintro rfl
    exact ⟨by simp, by simp, by simp⟩

theorem closes_cons {q : Char} {p : Piece} {ps : List Piece} (h : p ≠ .plain q) :
    Closes q (p :: ps) ↔ p ≠ .escaped '\n' ∧ p ≠ .dangling ∧ Closes q ps := by
  have hidx : (p :: ps).idxOf (.plain q) = ps.idxOf (.plain q) + 1 := List.idxOf_cons_ne _ h
  constructor
  · rintro ⟨hi, he, hd⟩
    rw [List.mem_cons, not_or] at he hd
    rw [hidx, List.length_cons] at hi
    exact ⟨Ne.symm he.1, Ne.symm hd.1, by omega, he.2, hd.2⟩
  · rintro ⟨he, hd, hps⟩
    refine ⟨?_, ?_, ?_⟩
    · rw [hidx, hps.idxOf_add_one, List.length_cons]
    · exact List.not_mem_cons_of_ne_of_not_mem he.symm hps.not_escaped
    · exact List.not_mem_cons_of_ne_of_not_mem hd.symm hps.not_dangling

theorem Closes.mem {q : Char} {ps : List Piece} (h : Closes q ps) : .plain q ∈ ps :=
  List.idxOf_lt_length_iff.1 (by have := h.idxOf_add_one; omega)

/-- Nothing can follow the piece that closes a quote. -/
theorem Closes.not_append {q : Char} {ps qs : List Piece} (h : Closes q ps) (hqs : qs ≠ []) :
    ¬ Closes q (ps ++ qs) := by
  intro hc
  have hi := hc.idxOf_add_one
  rw [List.idxOf_append_of_mem h.mem, h.idxOf_add_one, List.length_append] at hi
  exact hqs (List.length_eq_zero_iff.1 (by omega))

/-- **A text closes a quote if its pieces do.** -/
theorem closesQuote_iff {q : Char} (hq : q ≠ '\\') (s : List Char) :
    closesQuote q s = true ↔ Closes q (pieces s) := by
  fun_induction closesQuote q s with
  | case1 => simp [pieces, not_closes_nil]
  | case2 c r ih =>
    rw [pieces_backslash, closes_cons (by simp), Bool.and_eq_true, ih]
    simp
  | case3 c r h hc =>
    obtain rfl : c = q := beq_iff_eq.1 hc
    rw [pieces_cons hq, closes_cons_self, pieces_eq_nil_iff, List.isEmpty_iff]
  | case4 c r h hc ih =>
    have hp : Piece.plain c ≠ .plain q := by simpa using hc
    by_cases hb : c = '\\'
    · -- a backslash that could take something along was seen before
      subst hb
      cases r with
      | nil => simp [pieces, closes_cons]
      | cons d r => exact absurd rfl (h d r rfl)
    · rw [pieces_cons hb, closes_cons hp, Bool.and_eq_true, ih]
      simp [hb]

/-- **The strings in quotes are the quotations.** -/
theorem isQuoted_iff (s : List Char) : isQuoted s = true ↔ IsQuotation s := by
  constructor
  · intro h
    cases s with
    | nil => cases h
    | cons q r =>
      simp only [isQuoted, Bool.and_eq_true, Bool.or_eq_true, beq_iff_eq] at h
      have hq : q ≠ '\\' := by
        rintro rfl
        exact absurd h.1 (by decide)
      exact ⟨q, by simpa using h.1, r, rfl, (closesQuote_iff hq r).1 h.2⟩
  · rintro ⟨q, hq, r, rfl, hr⟩
    have hb : q ≠ '\\' := by
      rintro rfl
      exact absurd hq (by decide)
    rw [isQuoted, (closesQuote_iff hb r).2 hr, Bool.and_true]
    simpa using hq

/-- **A quotation ends where it is closed**: with more text behind it, it is no quotation. -/
theorem IsQuotation.not_append {s t : List Char} (h : IsQuotation s) (ht : t ≠ []) :
    ¬ IsQuotation (s ++ t) := by
  obtain ⟨q, -, r, rfl, hr⟩ := h
  rintro ⟨q', -, r', he, hr'⟩
  rw [List.cons_append] at he
  obtain ⟨rfl, rfl⟩ := List.cons.inj he
  rw [pieces_append hr.not_dangling] at hr'
  exact hr.not_append (fun hn => ht (pieces_eq_nil_iff.1 hn)) hr'

/-- No quotation starts like the word `null`. -/
theorem IsQuotation.head?_append_ne {s : List Char} (h : IsQuotation s) (t : List Char) :
    (s ++ t).head? ≠ some 'n' := by
  obtain ⟨q, hq, r, rfl, -⟩ := h
  rintro ⟨⟩
  exact absurd hq (by decide)

/-- Quotes are no white space. -/
theorem IsQuotation.isBlank_eq_false {l : String} (h : IsQuotation l.toList) :
    isBlank l = false := by
  obtain ⟨q, hq, r, hl, -⟩ := h
  have hw : isWhite q = false := by
    simp only [List.mem_cons, List.not_mem_nil, or_false] at hq
    rcases hq with rfl | rfl <;> rfl
  rw [isBlank, hl, List.all_cons, hw, Bool.false_and]

/-- The texts of a string: the word `null`, and the quotations. -/
def IsStringText (l : String) : Prop :=
  l = "null" ∨ IsQuotation l.toList

/-- **The texts of a string delimit themselves.** -/
theorem IsStringText.not_append {l t : String} (h : IsStringText l) (ht : t ≠ "") :
    ¬ IsStringText (l ++ t) := by
  rintro (hn | hq)
  · rcases h with rfl | h
    · exact ht (by simpa using hn)
    · refine h.head?_append_ne t.toList ?_
      rw [← String.toList_append, hn]
      rfl
  · rcases h with rfl | h
    · refine hq.head?_append_ne [] ?_
      rw [List.append_nil, String.toList_append]
      rfl
    · rw [String.toList_append] at hq
      exact h.not_append (fun he => ht (String.toList_eq_nil_iff.1 he)) hq

theorem IsStringText.isBlank_eq_false {l : String} (h : IsStringText l) : isBlank l = false := by
  rcases h with rfl | h
  · rfl
  · exact h.isBlank_eq_false

end Text

/-- The spellings of a string primitive. -/
theorem Primitive.accepts_string_iff {p : Primitive} (hp : p ∈ [string, stringLiterals])
    (l : String) : p.accepts l = true ↔ Text.IsStringText l := by
  have ha : p.accepts l = (l == "null" || Text.isQuoted l.toList) := by
    simp only [List.mem_cons, List.not_mem_nil, or_false] at hp
    rcases hp with rfl | rfl <;> rfl
  rw [ha, Bool.or_eq_true, beq_iff_eq, Text.isQuoted_iff, Text.IsStringText]

namespace Ty

/-- **The defaults of the string primitives** are the word `null` and the quotations. They delimit
themselves: with more text behind it, a default is none. -/
theorem acceptsDefault_quotation : ∀ p ∈ [Primitive.string, .stringLiterals], ∀ l : String,
    ((primitive p).acceptsDefault l = true ↔ l = "null" ∨ Text.IsQuotation l.toList) ∧
    ((primitive p).acceptsDefault l = true →
      ∀ t, t ≠ "" → (primitive p).acceptsDefault (l ++ t) = false) := by
  intro p hp l
  have acceptsDefault_iff : ∀ l, (primitive p).acceptsDefault l = true ↔ Text.IsStringText l := by
    intro l
    rw [acceptsDefault, accepts, Bool.and_eq_true, Bool.not_eq_true',
      Primitive.accepts_string_iff hp]
    exact and_iff_right_of_imp Text.IsStringText.isBlank_eq_false
  refine ⟨acceptsDefault_iff l, fun h t ht => ?_⟩
  rw [← Bool.not_eq_true, acceptsDefault_iff]
  exact ((acceptsDefault_iff l).1 h).not_append ht

/-- The other quote, an escaped quote, and a line feed after a backslash that was taken along. -/
theorem acceptsDefault_quotation_escapes :
    let l := "'\"\\'\\\\\n'"
    Primitive.string ∈ [Primitive.string, .stringLiterals] ∧ Text.IsQuotation l.toList ∧
      (primitive .string).acceptsDefault l = true ∧ "'" ≠ "" ∧
      (primitive .string).acceptsDefault (l ++ "'") = false := by
  intro l
  have hp : Primitive.string ∈ [Primitive.string, .stringLiterals] := by decide
  have hl : Text.IsQuotation l.toList := (Text.isQuoted_iff _).1 (by decide)
  obtain ⟨acceptsDefault_iff, delimits⟩ := acceptsDefault_quotation .string hp l
  have hd := acceptsDefault_iff.2 (.inr hl)
  exact ⟨hp, hl, hd, by decide, delimits hd "'" (by decide)⟩

end Ty

end NativeTypes
