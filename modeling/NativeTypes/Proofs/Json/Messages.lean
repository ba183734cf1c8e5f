import NativeTypes.Json.Fault
import NativeTypes.Proofs.Decimal.Numerals

/-! # Messages that end with a name

The message of a mismatch is its description, followed by its place. But a description that itself
ends like a place is taken apart (`takePlace`), and put together again with the place as it was
understood: without superfluous zeros, and not at all where its line is zero.

A name that has no ` at line ` inside can make a description end like a place only where the name
comes last and a blank comes before it. So a message goes on after a name in backticks
(`placedMessage_of_ticked`), and one that quotes a name last goes on after the name unless the name
is a misspelled place (`Place.Misspelled`, `prefix_placedMessage_iff`). -/

namespace NativeTypes.Json

open Decimal (IsDigits IsIntegerPart)

/-! ### The last occurrence of a word -/

theorem splitLast_eq_none {w s : List Char} (h : ¬ w <:+: s) : splitLast w s = none := by
  induction s with
  | nil => rfl
  | cons c s ih =>
    rw [List.infix_cons_iff, not_or] at h
    have hp : w.isPrefixOf (c :: s) = false :=
      Bool.eq_false_iff.2 fun hp => h.1 (List.isPrefixOf_iff_prefix.1 hp)
    simp [splitLast, ih h.2, hp]

/-- A word that occurs nowhere after the first character. -/
theorem splitLast_cons {w s : List Char} {c : Char} (h : ¬ w <:+: s) :
    splitLast w (c :: s) =
      if w.isPrefixOf (c :: s) then some ([], (c :: s).drop w.length) else none := by
  rw [splitLast, splitLast_eq_none h]

/-- A word does not reach over a character that it does not have. -/
theorem prefix_of_prefix_append_cons {w a b : List Char} {c : Char} (hc : c ∉ w)
    (h : w <+: a ++ c :: b) : w <+: a := by
  have hac : a ++ [c] <+: a ++ c :: b := ⟨b, by simp⟩
  rcases List.prefix_or_prefix_of_prefix h hac with hw | hw
  · rcases List.prefix_concat_iff.1 hw with rfl | hw
    · simp at hc
    · exact hw
  · exact absurd (hw.subset (List.mem_append_right a List.mem_cons_self)) hc

theorem splitLast_append {w a b : List Char} {c : Char} (hw : w ≠ []) (hc : c ∉ w)
    (ha : ¬ w <:+: a) :
    splitLast w (a ++ c :: b) = (splitLast w b).map fun x => (a ++ c :: x.1, x.2) := by
  have notPrefix : ∀ {d : List Char}, ¬ w <+: d → w.isPrefixOf (d ++ c :: b) = false :=
    fun hd => Bool.eq_false_iff.2 fun hp =>
      hd (prefix_of_prefix_append_cons hc (List.isPrefixOf_iff_prefix.1 hp))
  induction a with
  | nil =>
    have hp : w.isPrefixOf (c :: b) = false :=
      notPrefix (d := []) fun h => hw (List.prefix_nil.1 h)
    cases h : splitLast w b <;> simp [splitLast, h, hp]
  | cons d a ih =>
    rw [List.infix_cons_iff, not_or] at ha
    have hp : w.isPrefixOf (d :: (a ++ c :: b)) = false := notPrefix ha.1
    rw [List.cons_append, splitLast, ih ha.2]
    cases splitLast w b <;> simp [hp]

/-! ### Places at the end of a text -/

theorem natOfDigits?_eq_some_iff {ds : List Char} {n : Nat} : natOfDigits? ds = some n ↔
    IsDigits ds ∧ Nat.ofDigitChars 10 ds 0 = n ∧ n < UInt64.size := by
  simp only [natOfDigits?, IsDigits, List.all_eq_true]
  constructor
  · intro h
    split at h
    · rename_i hd
      cases h
      exact ⟨⟨hd.1, hd.2.1⟩, rfl, hd.2.2⟩
    · cases h
  · rintro ⟨hd, rfl, hn⟩
    exact if_pos ⟨hd.1, hd.2, hn⟩

theorem Place.line_le_advance (p : Place) (s : List Char) (n : Nat) :
    p.line ≤ (p.advance s n).line := by
  fun_induction advance p s n with
  | case1 | case2 => exact Nat.le_refl _
  | case3 p c s n _ ih =>
    refine Nat.le_trans ?_ ih
    split
    · exact Nat.le_succ p.line
    · exact Nat.le_refl p.line

/-- Lines are counted from one. -/
theorem Place.line_before_ne_zero (s : List Char) (n : Nat) : (before s n).line ≠ 0 :=
  Nat.ne_of_gt (line_le_advance ⟨1, 0⟩ s _)

/-- A text like that of a place. -/
def placeText (line column : List Char) : List Char :=
  " at line ".toList ++ (line ++ (" column ".toList ++ column))

theorem Place.toList_text (p : Place) :
    p.text.toList = placeText (Nat.toDigits 10 p.line) (Nat.toDigits 10 p.column) := by
  have h : ∀ a b c d : String, (a ++ b ++ c ++ d).toList =
      a.toList ++ (b.toList ++ (c.toList ++ d.toList)) := fun a b c d => by
    simp only [String.toList_append, List.append_assoc]
  have ht : p.text.toList = placeText p.line.repr.toList p.column.repr.toList := h _ _ _ _
  rw [ht, Nat.toList_repr, Nat.toList_repr]

/-- The line and the column after ` at line `, up to the end of the text. -/
def placeNumbers? (s : List Char) : Option Place :=
  if " column ".toList.isPrefixOf (s.dropWhile Char.isDigit) then do
    let line ← natOfDigits? (s.takeWhile Char.isDigit)
    let column ← natOfDigits? ((s.dropWhile Char.isDigit).drop 8)
    some ⟨line, column⟩
  else none

theorem placeNumbers?_eq_some_iff {s : List Char} {p : Place} : placeNumbers? s = some p ↔
    ∃ line column, s = line ++ (" column ".toList ++ column) ∧
      natOfDigits? line = some p.line ∧ natOfDigits? column = some p.column := by
  constructor
  · intro h
    rw [placeNumbers?] at h
    split at h
    · rename_i hp
      obtain ⟨column, hc⟩ := List.isPrefixOf_iff_prefix.1 hp
      obtain ⟨l, hl, h⟩ := Option.bind_eq_some_iff.1 h
      obtain ⟨c, hcol, h⟩ := Option.bind_eq_some_iff.1 h
      cases h
      rw [← hc] at hcol
      exact ⟨_, column, by rw [hc, List.takeWhile_append_dropWhile], hl, hcol⟩
    · cases h
  · rintro ⟨line, column, rfl, hl, hc⟩
    -- the line ends where the word `column` starts
    have hd := (natOfDigits?_eq_some_iff.1 hl).1.2
    have ht : (line ++ (" column ".toList ++ column)).takeWhile Char.isDigit = line :=
      (List.takeWhile_append_of_pos hd).trans (List.append_nil line)
    have hr : (line ++ (" column ".toList ++ column)).dropWhile Char.isDigit =
        " column ".toList ++ column := List.dropWhile_append_of_pos hd
    rw [placeNumbers?, ht, hr, if_pos (List.isPrefixOf_iff_prefix.2 ⟨column, rfl⟩)]
    exact Option.bind_eq_some_iff.2 ⟨_, hl, Option.bind_eq_some_iff.2 ⟨_, hc, rfl⟩⟩

theorem takePlace_eq (s : List Char) : takePlace s =
    (splitLast " at line ".toList s).bind fun x => (placeNumbers? x.2).map (x.1, ·) := by
  rw [takePlace]
  cases splitLast " at line ".toList s with
  | none => rfl
  | some x =>
    simp only [Option.bind_eq_bind, Option.bind_some, placeNumbers?]
    split
    · cases natOfDigits? (x.2.takeWhile Char.isDigit) with
      | none => rfl
      | some line => cases natOfDigits? ((x.2.dropWhile Char.isDigit).drop 8) <;> rfl
    · rfl

/-- The place at the end of a text does not depend on what comes before it. -/
theorem takePlace_append {a b : List Char} {c : Char} (hc : c ∉ " at line ".toList)
    (ha : ¬ " at line ".toList <:+: a) :
    takePlace (a ++ c :: b) = (takePlace b).map fun x => (a ++ c :: x.1, x.2) := by
  rw [takePlace_eq, takePlace_eq, splitLast_append (by decide) hc ha]
  cases splitLast " at line ".toList b <;> simp [Function.comp_def]

/-- A blank and a text that together are like a place. -/
theorem takePlace_cons_eq_some_iff {u a : List Char} {p : Place}
    (hu : ¬ " at line ".toList <:+: u) : takePlace (' ' :: u) = some (a, p) ↔
      a = [] ∧ ∃ line column, ' ' :: u = placeText line column ∧
        natOfDigits? line = some p.line ∧ natOfDigits? column = some p.column := by
  have cut : ∀ {r : List Char}, ' ' :: u = " at line ".toList ++ r →
      takePlace (' ' :: u) = (placeNumbers? r).map ([], ·) := by
    intro r hr
    rw [takePlace_eq, splitLast_cons hu, if_pos (List.isPrefixOf_iff_prefix.2 ⟨r, hr.symm⟩), hr]
    rfl
  constructor
  · intro h
    by_cases hp : " at line ".toList <+: ' ' :: u
    · obtain ⟨r, hr⟩ := hp
      rw [cut hr.symm, Option.map_eq_some_iff] at h
      obtain ⟨q, hq, he⟩ := h
      cases he
      obtain ⟨line, column, rfl, hn⟩ := placeNumbers?_eq_some_iff.1 hq
      exact ⟨rfl, line, column, hr.symm, hn⟩
    · have hp : " at line ".toList.isPrefixOf (' ' :: u) = false :=
        Bool.eq_false_iff.2 fun h => hp (List.isPrefixOf_iff_prefix.1 h)
      rw [takePlace_eq, splitLast_cons hu, hp] at h
      cases h
  · rintro ⟨rfl, line, column, hr, hn⟩
    rw [cut hr, placeNumbers?_eq_some_iff.2 ⟨line, column, rfl, hn⟩]
    rfl

/-! ### Names that come last -/

/-- A text that together with a blank before it is like a place, but not as places are written: its
line starts with a zero, or its column starts with one that is not all of it. -/
def Place.Misspelled (u : String) : Prop :=
  ∃ line column, ' ' :: u.toList = placeText line column ∧
    (natOfDigits? line).isSome = true ∧ (natOfDigits? column).isSome = true ∧
    (line.head? = some '0' ∨ column.head? = some '0' ∧ column ≠ ['0'])

theorem isDigits_of_natOfDigits? {ds : List Char} (h : (natOfDigits? ds).isSome = true) :
    IsDigits ds := by
  obtain ⟨n, hn⟩ := Option.isSome_iff_exists.1 h
  exact (natOfDigits?_eq_some_iff.1 hn).1

theorem isIntegerPart_of_head? {ds : List Char} (h : IsDigits ds)
    (h0 : ds.head? = some '0' → ds = ['0']) : IsIntegerPart ds := by
  refine ⟨h, fun r hr => ?_⟩
  subst hr
  exact (List.cons.inj (h0 rfl)).2

theorem eq_zero_of_head?_toDigits {n : Nat} (h : (Nat.toDigits 10 n).head? = some '0') : n = 0 := by
  obtain ⟨r, hr⟩ := List.head?_eq_some_iff.1 h
  have hn : Nat.toDigits 10 n = ['0'] := by
    rw [hr, (Decimal.isIntegerPart_toDigits n).2 r hr]
  rw [← Nat.ofDigitChars_ten_toDigits (n := n), hn]
  rfl

/-- The line of a place ends at the blank after it. -/
theorem eq_of_placeText_prefix {line column line' column' : List Char} (hl : IsDigits line)
    (hl' : IsDigits line') (h : placeText line column <+: placeText line' column') :
    line = line' ∧ column <+: column' := by
  have h : line ++ (" column ".toList ++ column) <+: line' ++ (" column ".toList ++ column') :=
    (List.prefix_append_right_inj _).1 h
  have takeLine : ∀ {ds r : List Char}, IsDigits ds →
      (ds ++ (" column ".toList ++ r)).takeWhile Char.isDigit = ds := fun hds =>
    (List.takeWhile_append_of_pos hds.2).trans (List.append_nil _)
  obtain ⟨t, ht⟩ := h
  rw [List.append_assoc, List.append_assoc] at ht
  have he : line = line' := by
    rw [← takeLine hl (r := column ++ t), ht, takeLine hl']
  subst he
  rw [List.append_cancel_left_eq, List.append_cancel_left_eq] at ht
  exact ⟨rfl, t, ht⟩

/-- No place is written like a misspelled one, or so that it starts like one. -/
theorem Place.Misspelled.not_prefix {u : String} (hu : Misspelled u) {p : Place}
    (hp : p.line ≠ 0) : ¬ ' ' :: u.toList <+: p.text.toList := by
  obtain ⟨line, column, he, hl, hc, h0⟩ := hu
  intro h
  rw [he, p.toList_text] at h
  obtain ⟨rfl, hcol⟩ := eq_of_placeText_prefix (isDigits_of_natOfDigits? hl)
    (Decimal.isIntegerPart_toDigits p.line).1 h
  rcases h0 with h0 | ⟨h0, hne⟩
  · exact hp (eq_zero_of_head?_toDigits h0)
  · obtain ⟨r, rfl⟩ := List.head?_eq_some_iff.1 h0
    obtain ⟨t, ht⟩ := hcol
    have hr := (Decimal.isIntegerPart_toDigits p.column).2 (r ++ t) ht.symm
    exact hne (by rw [(List.append_eq_nil_iff.1 hr).1])

/-- A place that is not misspelled is written as it is read. -/
theorem Place.toList_text_of_not_misspelled {u : String} {p : Place} {line column : List Char}
    (hu : ¬ Misspelled u) (he : ' ' :: u.toList = placeText line column)
    (hl : natOfDigits? line = some p.line) (hc : natOfDigits? column = some p.column) :
    p.line ≠ 0 ∧ p.text.toList = ' ' :: u.toList := by
  have h0 : ¬ (line.head? = some '0' ∨ column.head? = some '0' ∧ column ≠ ['0']) := fun h0 =>
    hu ⟨line, column, he, by rw [hl]; rfl, by rw [hc]; rfl, h0⟩
  rw [not_or, not_and, ne_eq, Classical.not_not] at h0
  obtain ⟨dl, vl, -⟩ := natOfDigits?_eq_some_iff.1 hl
  obtain ⟨dc, vc, -⟩ := natOfDigits?_eq_some_iff.1 hc
  have tl : Nat.toDigits 10 p.line = line :=
    vl ▸ Decimal.toDigits_ofDigitChars (isIntegerPart_of_head? dl fun h => (h0.1 h).elim)
  have tc : Nat.toDigits 10 p.column = column :=
    vc ▸ Decimal.toDigits_ofDigitChars (isIntegerPart_of_head? dc h0.2)
  refine ⟨fun hp => h0.1 ?_, by rw [p.toList_text, tl, tc, he]⟩
  rw [← tl, hp]
  rfl

/-- **The message of a description that quotes a name last, after a colon and a blank**, goes on
after the name, unless the name is a misspelled place. -/
theorem prefix_placedMessage_iff {q u : String} {known : Option Place}
    (hq : ¬ " at line ".toList <:+: q.toList) (hu : ¬ " at line ".toList <:+: u.toList)
    (hk : ∀ p ∈ known, p.line ≠ 0) :
    (q ++ ": " ++ u).toList <+: (placedMessage (q ++ ": " ++ u) known).toList ↔
      ¬ Place.Misspelled u := by
  have hs : (q ++ ": " ++ u).toList = q.toList ++ ':' :: ' ' :: u.toList := by
    simp [String.toList_append]
  have ht := takePlace_append (by decide) hq (b := ' ' :: u.toList) (c := ':')
  rw [placedMessage, hs, ht]
  cases h : takePlace (' ' :: u.toList) with
  | none =>
    refine iff_of_true ?_ ?_
    · simp only [Option.map_none, String.toList_append, hs]
      exact List.prefix_append _ _
    · rintro ⟨line, column, he, hl, hc, -⟩
      obtain ⟨l, hl⟩ := Option.isSome_iff_exists.1 hl
      obtain ⟨c, hc⟩ := Option.isSome_iff_exists.1 hc
      have := (takePlace_cons_eq_some_iff (p := ⟨l, c⟩) hu).2 ⟨rfl, line, column, he, hl, hc⟩
      cases h.symm.trans this
  | some x =>
    obtain ⟨a, own⟩ := x
    obtain ⟨rfl, line, column, he, hl, hc⟩ := (takePlace_cons_eq_some_iff hu).1 h
    have hcut : q.toList ++ ':' :: ' ' :: u.toList = (q.toList ++ [':']) ++ ' ' :: u.toList := by
      simp
    simp only [Option.map_some, String.toList_append, String.toList_ofList]
    rw [hcut, List.prefix_append_right_inj]
    constructor
    · intro hp hm
      split at hp
      · rename_i h0
        exact hm.not_prefix h0 hp
      · cases known with
        | none => simp at hp
        | some p => exact hm.not_prefix (hk p rfl) hp
    · intro hm
      obtain ⟨h0, ho⟩ := Place.toList_text_of_not_misspelled hm he hl hc
      simp [h0, ho]

/-- **The message of a description that quotes a name in backticks** goes on after it. -/
theorem placedMessage_of_ticked {a u b : String} {known : Option Place}
    (ha : ¬ " at line ".toList <:+: a.toList) (hu : ¬ " at line ".toList <:+: u.toList)
    (hb : ¬ " at line ".toList <:+: b.toList) :
    placedMessage (a ++ ticked u ++ b) known = a ++ ticked u ++ b ++ known.elim "" Place.text := by
  have hs : (a ++ ticked u ++ b).toList =
      a.toList ++ '\x60' :: (u.toList ++ '\x60' :: b.toList) := by
    simp [ticked, String.toList_append]
  have ht : takePlace (a ++ ticked u ++ b).toList = none := by
    rw [hs, takePlace_append (by decide) ha, takePlace_append (by decide) hu, takePlace_eq,
      splitLast_eq_none hb]
    rfl
  rw [placedMessage, ht]

end NativeTypes.Json
