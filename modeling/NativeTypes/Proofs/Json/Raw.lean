import NativeTypes.Proofs.Json.Grammar

/-! # JSON texts taken apart

A `Raw` is a JSON text of which only the structure is known: its numerals and its strings are kept
as they are spelled. `Raw.Spells x s r` says that the text `s` starts with a spelling of `x` and
that `r` is what is left after it; `Raw.IsText x s`, that `s` is a spelling of `x` with blanks
around it. So every JSON text is a text of some `Raw`, also where a number in it is out of range or
an escape in it makes no character.

`Raw.value?` is the value of such a text, where it has one, and `Raw.depth` how deep it nests. -/

namespace NativeTypes.Json

/-- A JSON text, taken apart. -/
inductive Raw where
  | null
  | boolean (b : Bool)
  | number (numeral : List Char)
  | string (chars : List Char)
  | array (items : List Raw)
  | object (fields : List (List Char × Raw))

/-! ### Strings -/

/-- What may stand between the quotes of a string: characters other than quotes, backslashes and
control characters, and escapes. -/
inductive Quotable : List Char → Prop
  | nil : Quotable []
  | plain {c : Char} {w : List Char} (h : ' ' ≤ c) (hq : c ≠ '"') (hb : c ≠ '\\')
      (hw : Quotable w) : Quotable (c :: w)
  | short {e c : Char} {w : List Char} (h : (e, c) ∈ shortEscapes) (hw : Quotable w) :
      Quotable ('\\' :: e :: w)
  | unit {n : Nat} {s w : List Char} (h : SpellsUnit n s w) (hw : Quotable w) :
      Quotable ('\\' :: 'u' :: s)

/-- A string in its quotes. -/
def Quotes (w s r : List Char) : Prop :=
  Quotable w ∧ s = '"' :: (w ++ '"' :: r)

/-- The text that a string makes, unless an escape in it makes no character. -/
def unquote? (w : List Char) : Option String :=
  match stringRest (w ++ ['"']) with
  | .ok (cs, []) => some (String.ofList cs)
  | _ => none

/-- The number that a numeral makes, unless it is out of range. -/
def numberOf? (w : List Char) : Option Number :=
  match readNumber w with
  | .ok (n, []) => some n
  | _ => none

/-! ### Values -/

namespace Raw

mutual

/-- **The spellings of a text that has been taken apart.** -/
def Spells : Raw → List Char → List Char → Prop
  | null, s, r => s = 'n' :: 'u' :: 'l' :: 'l' :: r
  | boolean true, s, r => s = 't' :: 'r' :: 'u' :: 'e' :: r
  | boolean false, s, r => s = 'f' :: 'a' :: 'l' :: 's' :: 'e' :: r
  | number w, s, r => Decimal.isNumber w = true ∧ s = w ++ r
  | string w, s, r => Quotes w s r
  | array [], s, r => ∃ t, s = '[' :: t ∧ Blanks t (']' :: r)
  | array (x :: xs), s, r =>
    ∃ t a b, s = '[' :: t ∧ Blanks t a ∧ Spells x a b ∧ SpellsMoreItems xs b r
  | object [], s, r => ∃ t, s = '{' :: t ∧ Blanks t ('}' :: r)
  | object (f :: fs), s, r =>
    ∃ t a b, s = '{' :: t ∧ Blanks t a ∧ SpellsField f a b ∧ SpellsMoreFields fs b r

/-- What follows an item of a list: more items, each after a comma, and the closing bracket. -/
def SpellsMoreItems : List Raw → List Char → List Char → Prop
  | [], s, r => Blanks s (']' :: r)
  | x :: xs, s, r =>
    ∃ t a b, Blanks s (',' :: t) ∧ Blanks t a ∧ Spells x a b ∧ SpellsMoreItems xs b r

/-- A field of an object: a name, a colon and a value. -/
def SpellsField : List Char × Raw → List Char → List Char → Prop
  | (k, x), s, r => ∃ a t b, Quotes k s a ∧ Blanks a (':' :: t) ∧ Blanks t b ∧ Spells x b r

/-- What follows a field of an object: more fields, each after a comma, and the closing brace. -/
def SpellsMoreFields : List (List Char × Raw) → List Char → List Char → Prop
  | [], s, r => Blanks s ('}' :: r)
  | f :: fs, s, r =>
    ∃ t a b, Blanks s (',' :: t) ∧ Blanks t a ∧ SpellsField f a b ∧ SpellsMoreFields fs b r

end

/-- **A JSON text**: a spelling with blanks around it. -/
def IsText (x : Raw) (s : String) : Prop :=
  ∃ a b, Blanks s.toList a ∧ x.Spells a b ∧ Blanks b []

mutual

/-- **The value of a JSON text**, unless a number in it is out of range or an escape in it makes no
character. -/
def value? : Raw → Option Json
  | null => some .null
  | boolean b => some (.boolean b)
  | number w => (numberOf? w).map .number
  | string w => (unquote? w).map .string
  | array xs => (itemValues? xs).map .array
  | object fs => (fieldValues? fs).map .object

/-- The values of items. -/
def itemValues? : List Raw → Option (List Json)
  | [] => some []
  | x :: xs => (value? x).bind fun j => (itemValues? xs).map (j :: ·)

/-- The names and the values of fields. -/
def fieldValues? : List (List Char × Raw) → Option (List (String × Json))
  | [] => some []
  | (k, x) :: fs =>
    (unquote? k).bind fun n => (value? x).bind fun j => (fieldValues? fs).map ((n, j) :: ·)

end

mutual

/-- **How deep lists and objects nest in a text.** -/
def depth : Raw → Nat
  | array xs => depthOfItems xs + 1
  | object fs => depthOfFields fs + 1
  | null | boolean _ | number _ | string _ => 0

/-- The greatest depth of an item. -/
def depthOfItems : List Raw → Nat
  | [] => 0
  | x :: xs => max (depth x) (depthOfItems xs)

/-- The greatest depth of the value of a field. -/
def depthOfFields : List (List Char × Raw) → Nat
  | [] => 0
  | (_, x) :: fs => max (depth x) (depthOfFields fs)

end

end Raw

end NativeTypes.Json
