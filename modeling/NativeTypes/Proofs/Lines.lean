import Mathlib.Algebra.GroupWithZero.Nat
import NativeTypes.Command.Outcome

/-! # The lines of a text

A text consists of lines, `Text.IsLines`, if it is what the lines give when each is ended by a line
break, and no line has a break of its own. There are then as many breaks in the text, counted by
`Text.breaks`, as there are lines (`Text.IsLines.breaks_eq`). Texts that are written one after the
other, each with a break behind it, have one break each and those that they bring along
(`Text.breaks_join_map_line`). -/

namespace NativeTypes.Text

/-- How many line breaks there are in a text. -/
def breaks (s : String) : Nat :=
  s.toList.count '\n'

/-! ### The breaks of composed texts -/

@[simp]
theorem breaks_empty : breaks "" = 0 :=
  rfl

/-- A text that is spelled out without a line break has none. -/
theorem breaks_ofList {l : List Char} (h : '\n' ∉ l) : breaks (String.ofList l) = 0 := by
  rw [breaks, String.toList_ofList, List.count_eq_zero]
  exact h

@[simp]
theorem breaks_append (s t : String) : breaks (s ++ t) = breaks s + breaks t := by
  simp [breaks]

@[simp]
theorem breaks_line (s : String) : breaks (line s) = breaks s + 1 := by
  rw [line, breaks_append]
  rfl

theorem breaks_join (ss : List String) : breaks (String.join ss) = (ss.map breaks).sum := by
  induction ss with
  | nil => rfl
  | cons s ss ih => rw [String.join_cons, breaks_append, ih, List.map_cons, List.sum_cons]

/-- A separator without breaks adds none. -/
theorem breaks_intercalate {separator : String} (h : breaks separator = 0) (ss : List String) :
    breaks (separator.intercalate ss) = (ss.map breaks).sum := by
  induction ss with
  | nil => simp
  | cons s ss ih =>
    cases ss with
    | nil => simp
    | cons t ss =>
      rw [String.intercalate_cons_cons, breaks_append, breaks_append, ih, h, Nat.add_zero]
      rfl

/-- Texts without breaks around a text add none. -/
theorem breaks_between {a b : String} (ha : breaks a = 0) (hb : breaks b = 0) (s : String) :
    breaks (a ++ s ++ b) = breaks s := by
  rw [breaks_append, breaks_append, ha, hb, Nat.zero_add, Nat.add_zero]

@[simp]
theorem breaks_parens (s : String) : breaks (parens s) = breaks s :=
  breaks_between (breaks_ofList (by decide)) (breaks_ofList (by decide)) s

@[simp]
theorem breaks_braces (s : String) : breaks (braces s) = breaks s :=
  breaks_between (breaks_ofList (by decide)) (breaks_ofList (by decide)) s

theorem breaks_applied (name : String) (arguments : List String) :
    breaks (applied name arguments) = breaks name + (arguments.map breaks).sum := by
  have hopen : breaks "<" = 0 := breaks_ofList (by decide)
  have hclose : breaks ">" = 0 := breaks_ofList (by decide)
  rw [applied, breaks_append, breaks_append, breaks_append, hopen, hclose,
    breaks_intercalate (breaks_ofList (by decide)), Nat.add_zero, Nat.add_zero]

/-- There is no break in a numeral. -/
@[simp]
theorem breaks_repr (n : Nat) : breaks n.repr = 0 := by
  rw [breaks, Nat.toList_repr, List.count_eq_zero]
  intro h
  exact absurd (Nat.isDigit_of_mem_toDigits (by decide) (by decide) h) (by decide)

/-! ### Lines -/

/-- A text consists of lines, each ended by a line break and without a break of its own. -/
structure IsLines (s : String) (ls : List String) : Prop where
  eq_join : s = String.join (ls.map line)
  unbroken : ∀ l ∈ ls, breaks l = 0

/-- Texts that are written one after the other, each with a break behind it, have the breaks of the
texts and one for each. -/
theorem breaks_join_map_line (ls : List String) :
    breaks (String.join (ls.map line)) = ls.length + (ls.map breaks).sum := by
  rw [breaks_join]
  induction ls with
  | nil => rfl
  | cons l ls ih =>
    simp only [List.map_cons, List.sum_cons, List.length_cons, breaks_line, ih]
    omega

/-- There are as many breaks as lines. -/
theorem IsLines.breaks_eq {s : String} {ls : List String} (h : IsLines s ls) :
    breaks s = ls.length := by
  have hsum : (ls.map breaks).sum = 0 := by
    rw [List.sum_eq_zero_iff_forall_eq_nat, List.forall_mem_map]
    exact h.unbroken
  rw [h.eq_join, breaks_join_map_line, hsum, Nat.add_zero]

end NativeTypes.Text
