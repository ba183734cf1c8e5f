import NativeTypes.Decimal.Grammar
import NativeTypes.Proofs.Json.Numerals

/-! # The grammar of JSON texts

`Spells j s r` says that the text `s` starts with a spelling of the value `j` and that `r` is what
is left after it; `IsText j s`, that `s` is a spelling of `j` with blanks around it. The grammar
leaves free the blanks between the parts of a value, and for each character of a string whether it
stands for itself or is escaped. A number is spelled by a numeral that is not out of range, so that
its value is the one the numeral is read as.

`Json.depth` is the greatest number of lists and objects that lie inside one another. -/

namespace NativeTypes.Json

/-- There are only blanks in `s` before `t`. -/
def Blanks (s t : List Char) : Prop :=
  ∃ w, s = w ++ t ∧ ∀ c ∈ w, c ∈ [' ', '\n', '\r', '\t']

/-! ### Strings -/

/-- A hexadecimal digit, in lower or in upper case, and its value. -/
def HexDigit (c : Char) (n : Nat) : Prop :=
  n < 16 ∧ (c = Nat.digitChar n ∨ c = (Nat.digitChar n).toUpper)

/-- Four hexadecimal digits and their value. -/
def SpellsUnit (n : Nat) (s r : List Char) : Prop :=
  ∃ a b c d, s = a :: b :: c :: d :: r ∧ HexDigit a (n / 4096) ∧ HexDigit b (n / 256 % 16) ∧
    HexDigit c (n / 16 % 16) ∧ HexDigit d (n % 16)

/-- The letters of the short escapes, and what they stand for. -/
def shortEscapes : List (Char × Char) :=
  [('"', '"'), ('\\', '\\'), ('/', '/'), ('b', '\x08'), ('f', '\x0c'), ('n', '\n'), ('r', '\r'),
    ('t', '\t')]

/-- The spellings of a character of a string: the character itself, a short escape, the number of
the character, or the numbers of its two surrogates. -/
inductive SpellsChar (c : Char) : List Char → List Char → Prop
  | plain {r : List Char} (h : ' ' ≤ c) (hq : c ≠ '"') (hb : c ≠ '\\') : SpellsChar c (c :: r) r
  | short {e : Char} {r : List Char} (h : (e, c) ∈ shortEscapes) : SpellsChar c ('\\' :: e :: r) r
  | unit {s r : List Char} (h : SpellsUnit c.toNat s r) : SpellsChar c ('\\' :: 'u' :: s) r
  | surrogates {high low : Nat} {s t r : List Char}
      (hh : SpellsUnit high s ('\\' :: 'u' :: t)) (hl : SpellsUnit low t r)
      (hhigh : 0xD800 ≤ high ∧ high ≤ 0xDBFF) (hlow : 0xDC00 ≤ low ∧ low ≤ 0xDFFF)
      (hc : c.toNat = 0x10000 + (high - 0xD800) * 0x400 + (low - 0xDC00)) :
      SpellsChar c ('\\' :: 'u' :: s) r

/-- The spellings of characters, with the closing quote. -/
def SpellsChars : List Char → List Char → List Char → Prop
  | [], s, r => s = '"' :: r
  | c :: cs, s, r => ∃ t, SpellsChar c s t ∧ SpellsChars cs t r

/-- The spellings of a string. -/
def SpellsString (x : String) (s r : List Char) : Prop :=
  ∃ t, s = '"' :: t ∧ SpellsChars x.toList t r

/-! ### Values -/

/-- The spellings of a number: the numerals of the grammar that are read as the number. -/
def SpellsNumber (n : Number) (s r : List Char) : Prop :=
  ∃ w, s = w ++ r ∧ Decimal.isNumber w = true ∧ readNumber w = .ok (n, []) ∧ EndsNumber r

mutual

/-- **The spellings of a value.** -/
def Spells : Json → List Char → List Char → Prop
  | null, s, r => s = 'n' :: 'u' :: 'l' :: 'l' :: r
  | boolean true, s, r => s = 't' :: 'r' :: 'u' :: 'e' :: r
  | boolean false, s, r => s = 'f' :: 'a' :: 'l' :: 's' :: 'e' :: r
  | number n, s, r => SpellsNumber n s r
  | string x, s, r => SpellsString x s r
  | array [], s, r => ∃ t, s = '[' :: t ∧ Blanks t (']' :: r)
  | array (j :: js), s, r =>
    ∃ t a b, s = '[' :: t ∧ Blanks t a ∧ Spells j a b ∧ SpellsMoreItems js b r
  | object [], s, r => ∃ t, s = '{' :: t ∧ Blanks t ('}' :: r)
  | object (f :: fs), s, r =>
    ∃ t a b, s = '{' :: t ∧ Blanks t a ∧ SpellsField f a b ∧ SpellsMoreFields fs b r

/-- What follows an item of a list: more items, each after a comma, and the closing bracket. -/
def SpellsMoreItems : List Json → List Char → List Char → Prop
  | [], s, r => Blanks s (']' :: r)
  | j :: js, s, r =>
    ∃ t a b, Blanks s (',' :: t) ∧ Blanks t a ∧ Spells j a b ∧ SpellsMoreItems js b r

/-- A field of an object: a name, a colon and a value. -/
def SpellsField : String × Json → List Char → List Char → Prop
  | (k, j), s, r => ∃ a t b, SpellsString k s a ∧ Blanks a (':' :: t) ∧ Blanks t b ∧ Spells j b r

/-- What follows a field of an object: more fields, each after a comma, and the closing brace. -/
def SpellsMoreFields : List (String × Json) → List Char → List Char → Prop
  | [], s, r => Blanks s ('}' :: r)
  | f :: fs, s, r =>
    ∃ t a b, Blanks s (',' :: t) ∧ Blanks t a ∧ SpellsField f a b ∧ SpellsMoreFields fs b r

end

/-- **A whole text**: a value with blanks around it. -/
def IsText (j : Json) (s : String) : Prop :=
  ∃ a b, Blanks s.toList a ∧ Spells j a b ∧ Blanks b []

/-! ### Depth -/

mutual

/-- **How deep lists and objects nest in a value.** -/
def depth : Json → Nat
  | array js => depthOfItems js + 1
  | object fs => depthOfFields fs + 1
  | null | boolean _ | number _ | string _ => 0

/-- The greatest depth of an item. -/
def depthOfItems : List Json → Nat
  | [] => 0
  | j :: js => max (depth j) (depthOfItems js)

/-- The greatest depth of the value of a field. -/
def depthOfFields : List (String × Json) → Nat
  | [] => 0
  | (_, j) :: fs => max (depth j) (depthOfFields fs)

end

theorem depthOfFields_le_iff {fs : List (String × Json)} {d : Nat} :
    depthOfFields fs ≤ d ↔ ∀ f ∈ fs, f.2.depth ≤ d := by
  induction fs with
  | nil => simp [depthOfFields]
  | cons f fs ih => rw [depthOfFields, Nat.max_le, ih, List.forall_mem_cons]

/-! ### Blanks -/

theorem blanks_refl (s : List Char) : Blanks s s :=
  ⟨[], rfl, by simp⟩

theorem isBlank_iff {c : Char} : isBlank c = true ↔ c ∈ [' ', '\n', '\r', '\t'] := by
  simp [isBlank, or_assoc]

/-- What is left after blanks does not depend on the blanks. -/
theorem Blanks.blank_eq {s t : List Char} (h : Blanks s t) : blank s = blank t := by
  obtain ⟨w, rfl, hw⟩ := h
  induction w with
  | nil => rfl
  | cons c w ih =>
    rw [List.forall_mem_cons, ← isBlank_iff] at hw
    simpa [blank, hw.1] using ih hw.2

theorem blank_cons {c : Char} {s : List Char} (h : isBlank c = false) :
    blank (c :: s) = c :: s := by
  simp [blank, h]

/-- Blanks before a character that is none. -/
theorem Blanks.blank_eq_cons {s t : List Char} {c : Char} (h : Blanks s (c :: t))
    (hc : isBlank c = false) : blank s = c :: t := by
  rw [h.blank_eq, blank_cons hc]

theorem Blanks.blank_eq_nil {s : List Char} (h : Blanks s []) : blank s = [] :=
  h.blank_eq

end NativeTypes.Json
