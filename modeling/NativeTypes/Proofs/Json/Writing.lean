import Mathlib.Tactic.SplitIfs
import NativeTypes.Json.Writer
import NativeTypes.Proofs.Json.Grammar

/-! # What is written

A value without numbers is written, in both layouts, as one of its spellings (`spells_write`), so
that its text is a text of the value (`isText_text`). -/

namespace NativeTypes.Json

/-! ### Strings -/

theorem spellsUnit_of_lt {n : Nat} (h : n < 32) (r : List Char) :
    SpellsUnit n ('0' :: '0' :: hexDigit (n / 16) :: hexDigit (n % 16) :: r) r := by
  have h₁ : n / 4096 = 0 := by omega
  have h₂ : n / 256 % 16 = 0 := by omega
  have h₃ : n / 16 % 16 = n / 16 := by omega
  refine ⟨'0', '0', _, _, rfl, ?_, ?_, ?_, ?_⟩
  · rw [h₁]
    exact ⟨by decide, .inl rfl⟩
  · rw [h₂]
    exact ⟨by decide, .inl rfl⟩
  · rw [h₃]
    exact ⟨by omega, .inl rfl⟩
  · exact ⟨by omega, .inl rfl⟩

/-- A character is written as one of its spellings. -/
theorem spellsChar_escaped (c : Char) (r : List Char) : SpellsChar c (escaped c ++ r) r := by
  rw [escaped]
  split_ifs with hq hb h₁ h₂ h₃ h₄ h₅ hc
  iterate 7
    · subst c
      exact .short (by decide)
  · have hn : c.toNat < 32 := hc
    exact .unit (spellsUnit_of_lt hn r)
  · exact .plain (Char.not_lt.1 hc) hq hb

theorem spellsChars_escapedRest (cs r : List Char) : SpellsChars cs (escapedRest cs ++ r) r := by
  induction cs with
  | nil => rfl
  | cons c cs ih =>
    refine ⟨escapedRest cs ++ r, ?_, ih⟩
    rw [escapedRest, List.append_assoc]
    exact spellsChar_escaped c _

theorem spellsString_writeString (x : String) (r : List Char) :
    SpellsString x (writeString x ++ r) r :=
  ⟨_, rfl, spellsChars_escapedRest x.toList r⟩

/-! ### Values -/

mutual

/-- A value that holds no number. -/
def NoNumber : Json → Prop
  | number _ => False
  | array js => NoNumberItems js
  | object fs => NoNumberFields fs
  | null | boolean _ | string _ => True

/-- Items that hold no number. -/
def NoNumberItems : List Json → Prop
  | [] => True
  | j :: js => NoNumber j ∧ NoNumberItems js

/-- Fields whose values hold no number. -/
def NoNumberFields : List (String × Json) → Prop
  | [] => True
  | (_, j) :: fs => NoNumber j ∧ NoNumberFields fs

end

theorem blanks_newline (l : Style) (n : Nat) (s : List Char) : Blanks (l.newline n ++ s) s := by
  refine ⟨l.newline n, rfl, ?_⟩
  cases l with
  | compact => simp [Style.newline]
  | pretty => simp [Style.newline, List.mem_replicate]

/-- What is written after the first item of a list. -/
def writeMoreItems (l : Style) (n : Nat) : List Json → List Char
  | [] => []
  | j :: js => ',' :: writeItems l n (j :: js)

theorem writeItems_cons (l : Style) (n : Nat) (j : Json) (js : List Json) :
    writeItems l n (j :: js) = l.newline n ++ write l n j ++ writeMoreItems l n js := by
  cases js <;> simp [writeItems, writeMoreItems]

/-- What is written after the first field of an object. -/
def writeMoreFields (l : Style) (n : Nat) : List (String × Json) → List Char
  | [] => []
  | f :: fs => ',' :: writeFields l n (f :: fs)

theorem writeFields_cons (l : Style) (n : Nat) (k : String) (j : Json)
    (fs : List (String × Json)) :
    writeFields l n ((k, j) :: fs) =
      l.newline n ++ writeString k ++ l.colon ++ write l n j ++ writeMoreFields l n fs := by
  cases fs <;> simp [writeFields, writeMoreFields]

theorem exists_colon (l : Style) (s : List Char) : ∃ t, l.colon ++ s = ':' :: t ∧ Blanks t s := by
  cases l with
  | compact => exact ⟨s, rfl, blanks_refl s⟩
  | pretty => exact ⟨' ' :: s, rfl, [' '], rfl, by simp⟩

theorem spellsField_write {l : Style} {n : Nat} {k : String} {j : Json} {r : List Char}
    (h : Spells j (write l n j ++ r) r) :
    SpellsField (k, j) (writeString k ++ (l.colon ++ (write l n j ++ r))) r := by
  obtain ⟨t, ht, hb⟩ := exists_colon l (write l n j ++ r)
  exact ⟨_, t, _, spellsString_writeString k _, ht ▸ blanks_refl _, hb, h⟩

mutual

/-- **A value is written as one of its spellings.** -/
theorem spells_write : ∀ (j : Json) (l : Style) (n : Nat) (r : List Char), NoNumber j →
    Spells j (write l n j ++ r) r
  | null, l, n, r, _ => rfl
  | boolean true, l, n, r, _ => rfl
  | boolean false, l, n, r, _ => rfl
  | number x, l, n, r, h => h.elim
  | string x, l, n, r, _ => spellsString_writeString x r
  | array [], l, n, r, _ => ⟨_, rfl, blanks_refl _⟩
  | array (j :: js), l, n, r, h => by
    rw [write, writeItems_cons]
    simp only [List.append_assoc, List.cons_append, List.nil_append]
    exact ⟨_, _, _, rfl, blanks_newline l (n + 1) _, spells_write j l (n + 1) _ h.1,
      spellsMoreItems_write js l (n + 1) n r h.2⟩
  | object [], l, n, r, _ => ⟨_, rfl, blanks_refl _⟩
  | object ((k, j) :: fs), l, n, r, h => by
    rw [write, writeFields_cons]
    simp only [List.append_assoc, List.cons_append, List.nil_append]
    exact ⟨_, _, _, rfl, blanks_newline l (n + 1) _,
      spellsField_write (spells_write j l (n + 1) _ h.1),
      spellsMoreFields_write fs l (n + 1) n r h.2⟩

/-- The items after the first one, and the closing bracket. -/
theorem spellsMoreItems_write : ∀ (js : List Json) (l : Style) (n m : Nat) (r : List Char),
    NoNumberItems js →
      SpellsMoreItems js (writeMoreItems l n js ++ (l.newline m ++ ']' :: r)) r
  | [], l, n, m, r, _ => blanks_newline l m _
  | j :: js, l, n, m, r, h => by
    rw [writeMoreItems, writeItems_cons]
    simp only [List.append_assoc, List.cons_append]
    exact ⟨_, _, _, blanks_refl _, blanks_newline l n _, spells_write j l n _ h.1,
      spellsMoreItems_write js l n m r h.2⟩

/-- The fields after the first one, and the closing brace. -/
theorem spellsMoreFields_write : ∀ (fs : List (String × Json)) (l : Style) (n m : Nat)
    (r : List Char), NoNumberFields fs →
      SpellsMoreFields fs (writeMoreFields l n fs ++ (l.newline m ++ '}' :: r)) r
  | [], l, n, m, r, _ => blanks_newline l m _
  | (k, j) :: fs, l, n, m, r, h => by
    rw [writeMoreFields, writeFields_cons]
    simp only [List.append_assoc, List.cons_append]
    exact ⟨_, _, _, blanks_refl _, blanks_newline l n _,
      spellsField_write (spells_write j l n _ h.1), spellsMoreFields_write fs l n m r h.2⟩

end

/-- **The text of a value is a text of it.** -/
theorem isText_text {j : Json} (l : Style) (h : NoNumber j) : IsText j (j.text l) := by
  refine ⟨_, [], blanks_refl _, ?_, blanks_refl _⟩
  rw [text, String.toList_ofList, ← List.append_nil (write l 0 j)]
  exact spells_write j l 0 [] h

end NativeTypes.Json
