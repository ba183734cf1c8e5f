import NativeTypes.Proofs.Json.Raw.Numerals
import NativeTypes.Proofs.Json.Raw.Strings

/-! # A text of what has been taken apart

Parts have a text if each numeral is a numeral and each string is spelled well (`Raw.Valid`). One
text of them is then `Raw.text`, which puts them together without blanks (`Raw.isText_text`). -/

namespace NativeTypes.Json

namespace Raw

mutual

/-- Each numeral is a numeral and each string is spelled well. -/
def Valid : Raw → Prop
  | null | boolean _ => True
  | number w => Decimal.isNumber w = true
  | string w => Quotable w
  | array xs => ValidItems xs
  | object fs => ValidFields fs

/-- The items are spelled well. -/
def ValidItems : List Raw → Prop
  | [] => True
  | x :: xs => Valid x ∧ ValidItems xs

/-- The names and the values of the fields are spelled well. -/
def ValidFields : List (List Char × Raw) → Prop
  | [] => True
  | (k, x) :: fs => (Quotable k ∧ Valid x) ∧ ValidFields fs

end

mutual

/-- The characters of a text. -/
def chars : Raw → List Char
  | null => ['n', 'u', 'l', 'l']
  | boolean true => ['t', 'r', 'u', 'e']
  | boolean false => ['f', 'a', 'l', 's', 'e']
  | number w => w
  | string w => '"' :: (w ++ ['"'])
  | array [] => ['[', ']']
  | array (x :: xs) => '[' :: (chars x ++ charsOfMoreItems xs)
  | object [] => ['{', '}']
  | object ((k, x) :: fs) => '{' :: '"' :: (k ++ '"' :: ':' :: (chars x ++ charsOfMoreFields fs))

/-- The characters after an item of a list. -/
def charsOfMoreItems : List Raw → List Char
  | [] => [']']
  | x :: xs => ',' :: (chars x ++ charsOfMoreItems xs)

/-- The characters after a field of an object. -/
def charsOfMoreFields : List (List Char × Raw) → List Char
  | [] => ['}']
  | (k, x) :: fs => ',' :: '"' :: (k ++ '"' :: ':' :: (chars x ++ charsOfMoreFields fs))

end

/-- **The text without blanks.** -/
def text (x : Raw) : String :=
  String.ofList x.chars

mutual

theorem spells_chars : ∀ (x : Raw) (r : List Char), x.Valid → x.Spells (x.chars ++ r) r
  | null, r, _ | boolean true, r, _ | boolean false, r, _ => rfl
  | number w, r, h => ⟨h, rfl⟩
  | string w, r, h => ⟨h, by simp [chars]⟩
  | array [], r, _ => ⟨_, rfl, blanks_refl _⟩
  | array (x :: xs), r, h => by
    rw [chars, List.cons_append, List.append_assoc]
    exact ⟨_, _, _, rfl, blanks_refl _, spells_chars x _ h.1, spells_charsOfMoreItems xs r h.2⟩
  | object [], r, _ => ⟨_, rfl, blanks_refl _⟩
  | object ((k, x) :: fs), r, h => by
    simp only [chars, List.cons_append, List.append_assoc]
    exact ⟨_, _, _, rfl, blanks_refl _, ⟨_, _, _, ⟨h.1.1, rfl⟩, blanks_refl _, blanks_refl _,
      spells_chars x _ h.1.2⟩, spells_charsOfMoreFields fs r h.2⟩

theorem spells_charsOfMoreItems : ∀ (xs : List Raw) (r : List Char), ValidItems xs →
    SpellsMoreItems xs (charsOfMoreItems xs ++ r) r
  | [], r, _ => blanks_refl _
  | x :: xs, r, h => by
    rw [charsOfMoreItems, List.cons_append, List.append_assoc]
    exact ⟨_, _, _, blanks_refl _, blanks_refl _, spells_chars x _ h.1,
      spells_charsOfMoreItems xs r h.2⟩

theorem spells_charsOfMoreFields : ∀ (fs : List (List Char × Raw)) (r : List Char),
    ValidFields fs → SpellsMoreFields fs (charsOfMoreFields fs ++ r) r
  | [], r, _ => blanks_refl _
  | (k, x) :: fs, r, h => by
    simp only [charsOfMoreFields, List.cons_append, List.append_assoc]
    exact ⟨_, _, _, blanks_refl _, blanks_refl _, ⟨_, _, _, ⟨h.1.1, rfl⟩, blanks_refl _,
      blanks_refl _, spells_chars x _ h.1.2⟩, spells_charsOfMoreFields fs r h.2⟩

end

theorem isText_text {x : Raw} (h : x.Valid) : x.IsText x.text := by
  refine ⟨_, [], blanks_refl _, ?_, blanks_refl _⟩
  rw [text, String.toList_ofList, ← List.append_nil x.chars]
  exact spells_chars x [] h

end Raw

/-! ### Strings without escapes -/

/-- Whether all characters stand for themselves in a string. -/
def isPlain (w : List Char) : Bool :=
  w.all fun c => decide (' '.toNat ≤ c.toNat) && c.toNat != '"'.toNat && c.toNat != '\\'.toNat

theorem isPlain_cons_iff {c : Char} {w : List Char} :
    isPlain (c :: w) = true ↔ (' ' ≤ c ∧ c ≠ '"' ∧ c ≠ '\\') ∧ isPlain w = true := by
  have hle : ' '.toNat ≤ c.toNat ↔ ' ' ≤ c := Iff.rfl
  have hne : ∀ d : Char, c.toNat ≠ d.toNat ↔ c ≠ d := fun d => by rw [ne_eq, Char.toNat_inj]
  simp only [isPlain, List.all_cons, Bool.and_eq_true, decide_eq_true_eq, bne_iff_ne, hle, hne,
    and_assoc]

theorem quotable_of_isPlain {w : List Char} (h : isPlain w = true) : Quotable w := by
  induction w with
  | nil => exact .nil
  | cons c w ih =>
    obtain ⟨⟨hc, hq, hb⟩, hw⟩ := isPlain_cons_iff.1 h
    exact .plain hc hq hb (ih hw)

theorem stringRest_of_isPlain {w : List Char} (h : isPlain w = true) (r : List Char) :
    stringRest (w ++ '"' :: r) = .ok (w, r) := by
  induction w with
  | nil => rw [List.nil_append, stringRest]
  | cons c w ih =>
    obtain ⟨⟨hc, hq, hb⟩, hw⟩ := isPlain_cons_iff.1 h
    exact stringRest_plain hc hq hb (ih hw)

/-- A string without escapes makes the text that it is. -/
theorem unquote?_of_isPlain {s : String} (h : isPlain s.toList = true) :
    unquote? s.toList = some s := by
  rw [unquote?, stringRest_of_isPlain h]
  simp

end NativeTypes.Json
