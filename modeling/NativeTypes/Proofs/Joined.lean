import Mathlib.Data.List.Flatten

/-! # Joined texts

The characters of texts that are joined with a separator: those of the first text, and then each
other text after the separator (`Text.toList_intercalate_cons`). A text of characters of one kind,
such as a numeral, is taken off again from what it was joined with, as long as a character of
another kind comes next (`Text.span_append_inj`, `Text.repr_append_inj`). -/

namespace NativeTypes.Text

variable {α : Type} (text : α → String) (separator : String)

/-- What stands after the first item of a list. -/
def moreItems (as : List α) : List Char :=
  as.flatMap fun a => separator.toList ++ (text a).toList

theorem moreItems_cons_append (a : α) (as : List α) (r : List Char) :
    moreItems text separator (a :: as) ++ r =
      separator.toList ++ ((text a).toList ++ (moreItems text separator as ++ r)) := by
  simp [moreItems]

theorem toList_intercalate_cons (a : α) (as : List α) :
    (separator.intercalate ((a :: as).map text)).toList =
      (text a).toList ++ moreItems text separator as := by
  induction as generalizing a with
  | nil => simp [moreItems]
  | cons b as ih =>
    rw [List.map_cons, List.map_cons, String.toList_intercalate, List.map_cons, List.map_cons,
      List.intercalate_cons_cons, ← List.map_cons (f := String.toList), ← List.map_cons (f := text),
      ← String.toList_intercalate, ih]
    simp [moreItems]

/-! ### What stands in front -/

/-- Two texts of characters of one kind, each before a character of another kind. -/
theorem span_append_inj {p : Char → Bool} {v w r s : List Char} (hv : ∀ c ∈ v, p c = true)
    (hw : ∀ c ∈ w, p c = true) (hr : ∀ c ∈ r.head?, p c = false) (hs : ∀ c ∈ s.head?, p c = false)
    (h : v ++ r = w ++ s) : v = w ∧ r = s := by
  have take : ∀ {u x : List Char}, (∀ c ∈ u, p c = true) → (∀ c ∈ x.head?, p c = false) →
      (u ++ x).takeWhile p = u := by
    intro u x hu hx
    rw [List.takeWhile_append_of_pos hu]
    cases x with
    | nil => simp
    | cons c x => simp [hx c rfl]
  have hvw : v = w := by rw [← take hv hr, h, take hw hs]
  exact ⟨hvw, List.append_cancel_left (hvw ▸ h)⟩

theorem isDigit_of_mem_repr {n : Nat} {c : Char} (h : c ∈ n.repr.toList) : c.isDigit = true :=
  Nat.isDigit_of_mem_toDigits (by decide) (by decide) (Nat.toList_repr ▸ h)

/-- Two numerals, each before a character that is no digit. -/
theorem repr_append_inj {m n : Nat} {r s : List Char} (hr : ∀ c ∈ r.head?, c.isDigit = false)
    (hs : ∀ c ∈ s.head?, c.isDigit = false) (h : m.repr.toList ++ r = n.repr.toList ++ s) :
    m = n ∧ r = s := by
  obtain ⟨hmn, hrs⟩ :=
    span_append_inj (fun _ => isDigit_of_mem_repr) (fun _ => isDigit_of_mem_repr) hr hs h
  rw [Nat.toList_repr, Nat.toList_repr] at hmn
  exact ⟨by rw [← Nat.ofDigitChars_ten_toDigits (n := m), hmn, Nat.ofDigitChars_ten_toDigits], hrs⟩

end NativeTypes.Text
