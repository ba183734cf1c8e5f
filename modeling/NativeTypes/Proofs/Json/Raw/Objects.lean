import Mathlib.Data.List.Forall2
import NativeTypes.Proofs.Joined
import NativeTypes.Proofs.Json.Raw.Spellings
import NativeTypes.Proofs.Json.Writing

/-! # Objects put together from texts

A text of an object is put together from the texts of its values (`objectText`). Each value stands
after its name, which may be spelled in any way, and all of them may have blanks around. Put
together, they are a text of the object (`isText_objectText`), since a spelling does not depend on
what comes after it (`Raw.Spells.append`). -/

namespace NativeTypes.Json

/-! ### What comes after a spelling -/

theorem Blanks.append {s t : List Char} (h : Blanks s t) (u : List Char) :
    Blanks (s ++ u) (t ++ u) := by
  obtain ⟨w, rfl, hw⟩ := h
  exact ⟨w, List.append_assoc w t u, hw⟩

theorem Quotes.append {w s r : List Char} (h : Quotes w s r) (u : List Char) :
    Quotes w (s ++ u) (r ++ u) := by
  obtain ⟨hw, rfl⟩ := h
  exact ⟨hw, by simp⟩

mutual

/-- **A spelling does not depend on what comes after it.** -/
theorem Raw.Spells.append : ∀ {x : Raw} {s r : List Char}, x.Spells s r →
    ∀ u : List Char, x.Spells (s ++ u) (r ++ u)
  | .null, s, r, h, u | .boolean true, s, r, h, u | .boolean false, s, r, h, u => by
    cases h
    rfl
  | .number w, s, r, ⟨hw, h⟩, u => ⟨hw, by rw [h, List.append_assoc]⟩
  | .string w, s, r, h, u => Quotes.append h u
  | .array [], s, r, h, u | .object [], s, r, h, u => by
    obtain ⟨t, rfl, ht⟩ := h
    exact ⟨t ++ u, rfl, ht.append u⟩
  | .array (x :: xs), s, r, h, u => by
    obtain ⟨t, a, b, rfl, hta, hx, hxs⟩ := h
    exact ⟨_, _, _, rfl, hta.append u, hx.append u, spellsMoreItems_append xs hxs u⟩
  | .object (f :: fs), s, r, h, u => by
    obtain ⟨t, a, b, rfl, hta, hf, hfs⟩ := h
    exact ⟨_, _, _, rfl, hta.append u, spellsField_append f hf u, spellsMoreFields_append fs hfs u⟩

/-- The items that follow. -/
theorem spellsMoreItems_append : ∀ (xs : List Raw) {s r : List Char}, Raw.SpellsMoreItems xs s r →
    ∀ u : List Char, Raw.SpellsMoreItems xs (s ++ u) (r ++ u)
  | [], s, r, h, u => Blanks.append h u
  | x :: xs, s, r, h, u => by
    obtain ⟨t, a, b, hst, hta, hx, hxs⟩ := h
    exact ⟨_, _, _, hst.append u, hta.append u, hx.append u, spellsMoreItems_append xs hxs u⟩

/-- A field. -/
theorem spellsField_append : ∀ (f : List Char × Raw) {s r : List Char}, Raw.SpellsField f s r →
    ∀ u : List Char, Raw.SpellsField f (s ++ u) (r ++ u)
  | (k, x), s, r, h, u => by
    obtain ⟨a, t, b, hk, hat, htb, hx⟩ := h
    exact ⟨_, _, _, hk.append u, hat.append u, htb.append u, hx.append u⟩

/-- The fields that follow. -/
theorem spellsMoreFields_append : ∀ (fs : List (List Char × Raw)) {s r : List Char},
    Raw.SpellsMoreFields fs s r → ∀ u : List Char, Raw.SpellsMoreFields fs (s ++ u) (r ++ u)
  | [], s, r, h, u => Blanks.append h u
  | f :: fs, s, r, h, u => by
    obtain ⟨t, a, b, hst, hta, hf, hfs⟩ := h
    exact ⟨_, _, _, hst.append u, hta.append u, spellsField_append f hf u,
      spellsMoreFields_append fs hfs u⟩

end

/-- A text is a spelling between blanks, also before more characters. -/
theorem Raw.IsText.exists_spells {x : Raw} {s : String} (h : x.IsText s) (u : List Char) :
    ∃ a b, Blanks (s.toList ++ u) a ∧ x.Spells a b ∧ Blanks b u := by
  obtain ⟨a, b, ha, hx, hb⟩ := h
  exact ⟨_, _, ha.append u, hx.append u, hb.append u⟩

/-! ### Entries -/

/-- A name, the string it is spelled as, and the text of a value. -/
structure Entry where
  name : String
  key : String
  text : String

namespace Entry

/-- An entry whose name is spelled as it is written. -/
def ofName (name text : String) : Entry :=
  ⟨name, String.ofList (writeString name), text⟩

/-- The string spells the name, and the text is a JSON text of what nests at most `d` deep. -/
def IsValid (d : Nat) (e : Entry) : Prop :=
  SpellsString e.name e.key.toList [] ∧ ∃ x : Raw, x.IsText e.text ∧ x.depth ≤ d

theorem isValid_ofName {d : Nat} {n s : String} {x : Raw} (hx : x.IsText s) (hd : x.depth ≤ d) :
    (ofName n s).IsValid d := by
  refine ⟨?_, x, hx, hd⟩
  rw [ofName, String.toList_ofList, ← List.append_nil (writeString n)]
  exact spellsString_writeString n []

/-- A field is what an entry says. -/
def Describes (e : Entry) (f : List Char × Raw) : Prop :=
  Quotes f.1 e.key.toList [] ∧ unquote? f.1 = some e.name ∧ f.2.IsText e.text

/-- The text of a field. -/
def fieldText (e : Entry) : String :=
  e.key ++ ":" ++ e.text

theorem IsValid.exists_field {d : Nat} {e : Entry} (h : e.IsValid d) :
    ∃ f, e.Describes f ∧ f.2.depth ≤ d := by
  obtain ⟨hk, x, hx, hd⟩ := h
  obtain ⟨w, hw, hn⟩ := exists_quotes_of_spellsString hk
  exact ⟨(w, x), ⟨hw, hn, hx⟩, hd⟩

theorem exists_fields {d : Nat} {l : List Entry} (h : ∀ e ∈ l, e.IsValid d) :
    ∃ fs, List.Forall₂ (fun e f => e.Describes f ∧ f.2.depth ≤ d) l fs := by
  induction l with
  | nil => exact ⟨[], .nil⟩
  | cons e l ih =>
    rw [List.forall_mem_cons] at h
    obtain ⟨f, hf⟩ := h.1.exists_field
    obtain ⟨fs, hfs⟩ := ih h.2
    exact ⟨f :: fs, .cons hf hfs⟩

/-- The text of a field, before more characters. -/
theorem Describes.spellsField {e : Entry} {f : List Char × Raw} (h : e.Describes f)
    (u : List Char) : ∃ b, Raw.SpellsField f (e.fieldText.toList ++ u) b ∧ Blanks b u := by
  obtain ⟨k, x⟩ := f
  obtain ⟨hk, -, hx⟩ := h
  obtain ⟨a, b, ha, hx, hb⟩ := hx.exists_spells u
  refine ⟨b, ⟨':' :: (e.text.toList ++ u), _, a, ?_, blanks_refl _, ha, hx⟩, hb⟩
  simpa [fieldText] using hk.append (':' :: (e.text.toList ++ u))

end Entry

/-- **The text of an object** that is put together from entries. -/
def objectText (l : List Entry) : String :=
  "\x7b" ++ String.intercalate "," (l.map Entry.fieldText) ++ "\x7d"

theorem toList_objectText_cons (e : Entry) (l : List Entry) : (objectText (e :: l)).toList =
    '{' :: (e.fieldText.toList ++ (Text.moreItems Entry.fieldText "," l ++ ['}'])) := by
  rw [objectText, String.toList_append, String.toList_append, Text.toList_intercalate_cons]
  simp

theorem spellsMoreFields_entries {l : List Entry} {fs : List (List Char × Raw)}
    (h : List.Forall₂ Entry.Describes l fs) {s : List Char}
    (hs : Blanks s (Text.moreItems Entry.fieldText "," l ++ ['}'])) :
    Raw.SpellsMoreFields fs s [] := by
  induction h generalizing s with
  | nil => exact hs
  | @cons e f l fs he _ ih =>
    rw [Text.moreItems_cons_append] at hs
    obtain ⟨b, hf, hb⟩ := he.spellsField (Text.moreItems Entry.fieldText "," l ++ ['}'])
    exact ⟨_, _, b, hs, blanks_refl _, hf, ih hb⟩

/-- **Texts of values that are put together are a text of an object.** -/
theorem isText_objectText {l : List Entry} {fs : List (List Char × Raw)}
    (h : List.Forall₂ Entry.Describes l fs) : (Raw.object fs).IsText (objectText l) := by
  refine ⟨_, [], blanks_refl _, ?_, blanks_refl _⟩
  cases h with
  | nil => exact ⟨_, rfl, blanks_refl _⟩
  | @cons e f l fs he hl =>
    obtain ⟨b, hf, hb⟩ := he.spellsField (Text.moreItems Entry.fieldText "," l ++ ['}'])
    rw [toList_objectText_cons]
    exact ⟨_, _, b, rfl, blanks_refl _, hf, spellsMoreFields_entries hl hb⟩

end NativeTypes.Json
