import NativeTypes.Annotation

/-! # Phrases

The annotation of a type is a *phrase*, in which nothing is left to tell apart but what can be seen
in its text: a *core* with words `readonly` in front of it and pairs of square brackets behind it.
A name stands for a primitive as well as for a reference, and alternatives in round brackets for a
union as well as for an optional type.

`Phrase.Sound` says what the text needs to be read back: words are made of the characters of words,
round brackets join two parts or more, and each word `readonly` has a pair of square brackets. An
arrow ends where its result does, so that a further pair behind it would be read as one behind the
result; it has no pair but those of the words `readonly`. -/

namespace NativeTypes.Annotation

/-- What stands between the parts of a list. -/
inductive Joint where
  | comma
  | bar
  | amp
deriving DecidableEq

/-- The text of a joint. -/
def Joint.text : Joint → String
  | comma => ", "
  | bar => " | "
  | amp => " & "

mutual

/-- A core, how often `readonly` stands before it, and how many pairs of brackets stand behind. -/
inductive Phrase where
  | mk (front : Nat) (core : Core) (back : Nat)

/-- A phrase without `readonly` in front and brackets behind. -/
inductive Core where
  | name (s : String)
  | applied (head : String) (argument : Phrase) (value : Option String)
  | group (joint : Joint) (parts : List Phrase)
  | arrow (arguments : List Phrase) (result : Phrase)
  | braces (members : List (Member Phrase))

end

/-- How often `readonly` stands before the core. -/
def Phrase.front : Phrase → Nat
  | .mk k _ _ => k

/-- A phrase without what stands before and behind it. -/
def Phrase.core : Phrase → Core
  | .mk _ c _ => c

/-- A core that stands alone. -/
def Core.alone (c : Core) : Phrase :=
  .mk 0 c 0

/-- A text that is written several times. -/
def repeated (n : Nat) (s : String) : String :=
  String.join (List.replicate n s)

/-! ### Texts -/

mutual

/-- **The text of a phrase.** -/
def Phrase.text : Phrase → String
  | .mk k c n => repeated k "readonly " ++ c.text ++ repeated n "[]"

/-- The text of a core. -/
def Core.text : Core → String
  | .name s => s
  | .applied h f v => Text.applied h (f.text :: v.toList)
  | .group j fs => Text.parens (String.intercalate j.text (texts fs))
  | .arrow fs f => Text.parens (String.intercalate ", " (texts fs)) ++ " -> " ++ f.text
  | .braces ms => Text.braces (String.intercalate ", " (memberTexts ms))

/-- The texts of phrases. -/
def texts : List Phrase → List String
  | [] => []
  | f :: fs => f.text :: texts fs

/-- The texts of members. -/
def memberTexts : List (Member Phrase) → List String
  | [] => []
  | ⟨n, f, o, r⟩ :: ms => Member.text ⟨n, f, o, r⟩ f.text :: memberTexts ms

end

theorem texts_eq_map (fs : List Phrase) : texts fs = fs.map Phrase.text := by
  induction fs with
  | nil => rfl
  | cons f fs ih => rw [texts, ih, List.map_cons]

theorem memberTexts_eq_map (ms : List (Member Phrase)) :
    memberTexts ms = ms.map fun m => m.text m.type.text := by
  induction ms with
  | nil => rfl
  | cons m ms ih => rw [memberTexts, ih, List.map_cons]

/-! ### Texts before a rest -/

/-- What stands behind the argument of a name: a value, if there is one, and the closing bracket. -/
def closing : Option String → List Char → List Char
  | none, r => '>' :: r
  | some v, r => ',' :: ' ' :: (v.toList ++ '>' :: r)

theorem Phrase.toList_text_append (k : Nat) (c : Core) (n : Nat) (r : List Char) :
    (Phrase.mk k c n).text.toList ++ r =
      (repeated k "readonly ").toList ++ (c.text.toList ++ ((repeated n "[]").toList ++ r)) := by
  simp [text]

theorem Core.toList_applied_append (h : String) (f : Phrase) (v : Option String) (r : List Char) :
    (applied h f v).text.toList ++ r = h.toList ++ '<' :: (f.text.toList ++ closing v r) := by
  cases v <;> simp [text, Text.applied, closing]

theorem Core.toList_group_append (j : Joint) (fs : List Phrase) (r : List Char) :
    (group j fs).text.toList ++ r =
      '(' :: ((j.text.intercalate (texts fs)).toList ++ ')' :: r) := by
  simp [text, Text.parens]

theorem Core.toList_arrow_append (fs : List Phrase) (f : Phrase) (r : List Char) :
    (arrow fs f).text.toList ++ r = '(' :: ((Joint.comma.text.intercalate (texts fs)).toList ++
      ')' :: (" -> ".toList ++ (f.text.toList ++ r))) := by
  simp [text, Text.parens, Joint.text]

theorem Core.toList_braces_append (ms : List (Member Phrase)) (r : List Char) :
    (braces ms).text.toList ++ r =
      '{' :: ((Joint.comma.text.intercalate (memberTexts ms)).toList ++ '}' :: r) := by
  simp [text, Text.braces, Joint.text]

/-! ### Sound phrases -/

/-- Whether a character may start an identifier. -/
def startsIdentifier (c : Char) : Bool :=
  c.isAlpha || c == '_' || c == '$'

/-- Whether a character may stand inside an identifier. -/
def continuesIdentifier (c : Char) : Bool :=
  c.isAlphanum || c == '_' || c == '$'

/-- Whether a text is an identifier: letters, digits and the signs `_` and `$`, with no digit in
front. -/
def isIdentifier (s : String) : Bool :=
  match s.toList with
  | [] => false
  | c :: r => startsIdentifier c && r.all continuesIdentifier

/-- The characters of words: those of identifiers and of unquoted values. -/
def isWordChar (c : Char) : Bool :=
  continuesIdentifier c || c == '.' || c == '+' || c == '-'

/-- A text of word characters. -/
def IsWord (s : String) : Prop :=
  ∀ c ∈ s.toList, isWordChar c = true

instance : DecidablePred IsWord := fun s =>
  decidable_of_iff (s.toList.all isWordChar = true) List.all_eq_true

/-- A text in quotes with no quotes inside. -/
def IsQuotation (s : String) : Prop :=
  ∃ w, s.toList = '"' :: (w ++ ['"']) ∧ '"' ∉ w

/-- What can be the name of a type: a word or a quotation. -/
def IsName (s : String) : Prop :=
  s ≠ "" ∧ IsWord s ∨ IsQuotation s

/-- Whether a core is an arrow. -/
def Core.isArrow : Core → Bool
  | .arrow .. => true
  | _ => false

mutual

/-- **A phrase whose text can be read back.** -/
def Phrase.Sound : Phrase → Prop
  | .mk k c n => c.Sound ∧ k ≤ n ∧ (c.isArrow = true → n ≤ k)

/-- A core whose text can be read back. -/
def Core.Sound : Core → Prop
  | .name s => IsName s
  | .applied h f v => h ≠ "" ∧ IsWord h ∧ f.Sound ∧ ∀ x ∈ v, IsWord x
  | .group j fs => j ≠ .comma ∧ 2 ≤ fs.length ∧ SoundAll fs
  | .arrow fs f => SoundAll fs ∧ f.Sound
  | .braces ms => SoundMembers ms

/-- Phrases whose texts can be read back. -/
def SoundAll : List Phrase → Prop
  | [] => True
  | f :: fs => f.Sound ∧ SoundAll fs

/-- Members whose texts can be read back. -/
def SoundMembers : List (Member Phrase) → Prop
  | [] => True
  | ⟨n, f, _, _⟩ :: ms => (n ≠ "" ∧ IsWord n ∧ f.Sound) ∧ SoundMembers ms

end

theorem soundAll_iff {fs : List Phrase} : SoundAll fs ↔ ∀ f ∈ fs, f.Sound := by
  induction fs with
  | nil => simp [SoundAll]
  | cons f fs ih => rw [SoundAll, ih, List.forall_mem_cons]

theorem soundMembers_iff {ms : List (Member Phrase)} :
    SoundMembers ms ↔ ∀ m ∈ ms, m.name ≠ "" ∧ IsWord m.name ∧ m.type.Sound := by
  induction ms with
  | nil => simp [SoundMembers]
  | cons m ms ih => rw [SoundMembers, ih, List.forall_mem_cons]

end NativeTypes.Annotation
