import NativeTypes.Proofs.Annotation.Phrase
import NativeTypes.Proofs.Joined

/-! # Phrases are unambiguous

A text that starts with a sound phrase, after which comes nothing or what may stand behind a phrase,
determines the phrase and what comes after it (`Phrase.separable`). The proof goes over the phrase
from left to right: words end where a character comes that is not theirs (`word_append_inj`), what
stands in brackets is separated by one joint throughout (`joined_append_inj`), and what is repeated
in front of a core or behind it ends where the core or the phrase does (`repeated_append_inj`). The
words `readonly` in front of an arrow say how many pairs of brackets behind it are its own, so that
the other ones belong to its result: the induction is on texts with such pairs behind the phrase
(`Phrase.determined`). -/

namespace NativeTypes.Annotation

/-! ### Where words and phrases end -/

/-- A text that is empty or starts with one of the given characters. -/
def StartsIn (cs : List Char) (r : List Char) : Prop :=
  ∀ c ∈ r.head?, c ∈ cs

@[simp]
theorem startsIn_nil (cs : List Char) : StartsIn cs [] := by
  simp [StartsIn]

@[simp]
theorem startsIn_cons {cs : List Char} {c : Char} {r : List Char} :
    StartsIn cs (c :: r) ↔ c ∈ cs := by
  simp [StartsIn]

/-- The characters that may stand behind a phrase. -/
def phraseEnds : List Char :=
  [' ', ',', '>', ')', '}']

/-- The characters that may stand behind a core. -/
def coreEnds : List Char :=
  '[' :: phraseEnds

/-- The characters that may stand behind a word. -/
def wordEnds : List Char :=
  ['<', '?', ':'] ++ coreEnds

/-- What may stand behind a phrase: nothing, a sign that ends a part, or a joint, whose second
character is none that a phrase could start with. -/
def EndsPhrase (r : List Char) : Prop :=
  StartsIn [',', '>', ')', '}'] r ∨ ∃ c s, r = ' ' :: c :: s ∧ c ∈ ['|', '&']

theorem StartsIn.mono {cs ds : List Char} {r : List Char} (h : StartsIn cs r) (hs : cs ⊆ ds) :
    StartsIn ds r :=
  fun c hc => hs (h c hc)

theorem EndsPhrase.startsIn {r : List Char} (h : EndsPhrase r) : StartsIn phraseEnds r := by
  rcases h with h | ⟨c, s, rfl, -⟩
  · exact h.mono (by decide)
  · exact startsIn_cons.2 (by decide)

theorem not_isWordChar_of_mem {c : Char} (h : c ∈ wordEnds) : isWordChar c = false := by
  have hall : wordEnds.all (!isWordChar ·) = true := by decide
  simpa using List.all_eq_true.1 hall c h

/-- **A word ends where a character comes that is none of a word.** -/
theorem word_append_inj {v w : String} {r s : List Char} (hv : IsWord v) (hw : IsWord w)
    (hr : StartsIn wordEnds r) (hs : StartsIn wordEnds s) (h : v.toList ++ r = w.toList ++ s) :
    v = w ∧ r = s := by
  obtain ⟨h₁, h₂⟩ := Text.span_append_inj hv hw (fun c hc => not_isWordChar_of_mem (hr c hc))
    (fun c hc => not_isWordChar_of_mem (hs c hc)) h
  exact ⟨String.toList_inj.1 h₁, h₂⟩

theorem quotation_append_inj {v w : String} {r s : List Char} (hv : IsQuotation v)
    (hw : IsQuotation w) (h : v.toList ++ r = w.toList ++ s) : v = w ∧ r = s := by
  obtain ⟨a, ha, haq⟩ := hv
  obtain ⟨b, hb, hbq⟩ := hw
  have other : ∀ {u : List Char}, '"' ∉ u → ∀ c ∈ u, (c != '"') = true := fun hu c hc =>
    bne_iff_ne.2 fun hq => hu (hq ▸ hc)
  rw [ha, hb, List.cons_append, List.cons_append, List.cons.injEq, List.append_assoc,
    List.append_assoc] at h
  obtain ⟨h₁, h₂⟩ := Text.span_append_inj (other haq) (other hbq) (by simp) (by simp) h.2
  have hvw : v.toList = w.toList := by rw [ha, hb, h₁]
  simp only [List.cons_append, List.nil_append, List.cons.injEq, true_and] at h₂
  exact ⟨String.toList_inj.1 hvw, h₂⟩

/-- What is repeated before two texts, neither of which is the other one after some more of it. -/
theorem repeated_append_inj {w : String} {m n : Nat} {a b : List Char}
    (ha : ∀ k, a ≠ w.toList ++ ((repeated k w).toList ++ b))
    (hb : ∀ k, b ≠ w.toList ++ ((repeated k w).toList ++ a))
    (h : (repeated m w).toList ++ a = (repeated n w).toList ++ b) : m = n ∧ a = b := by
  simp only [repeated, String.toList_join] at h ha hb
  induction m generalizing n with
  | zero =>
    cases n with
    | zero => exact ⟨rfl, by simpa using h⟩
    | succ n => exact absurd h (by simpa [List.replicate_succ] using ha n)
  | succ m ih =>
    cases n with
    | zero => exact absurd h.symm (by simpa [List.replicate_succ] using hb m)
    | succ n =>
      simp only [List.replicate_succ, List.flatMap_cons, List.append_assoc] at h
      obtain ⟨rfl, hab⟩ := ih (List.append_cancel_left h)
      exact ⟨rfl, hab⟩

theorem toList_repeated_append (m n : Nat) (w : String) (r : List Char) :
    (repeated m w).toList ++ ((repeated n w).toList ++ r) = (repeated (m + n) w).toList ++ r := by
  rw [← List.append_assoc, repeated, repeated, repeated, ← String.toList_append,
    ← String.join_append, List.replicate_append_replicate]

/-! ### How phrases start -/

/-- Whether a character may be the first one of a phrase. -/
def opens (c : Char) : Bool :=
  isWordChar c || c == '"' || c == '(' || c == '{'

theorem opens_eq_false_of_mem {c : Char} (h : c ∈ coreEnds) : opens c = false := by
  have hall : coreEnds.all (!opens ·) = true := by decide
  simpa using List.all_eq_true.1 hall c h

/-- The bracket that a character is, if it opens one. -/
def bracketOf (c : Char) : Option Char :=
  if c = '(' ∨ c = '{' then some c else none

/-- The bracket that a core starts with. -/
def Core.bracket : Core → Option Char
  | .name _ | .applied .. => none
  | .group .. | .arrow .. => some '('
  | .braces _ => some '{'

theorem bracketOf_eq_none {c : Char} (h : isWordChar c = true) : bracketOf c = none := by
  rw [bracketOf, if_neg]
  rintro (rfl | rfl) <;> cases h

/-- A word starts with one of its characters. -/
theorem IsWord.exists_cons {s : String} (hn : s ≠ "") (h : IsWord s) :
    ∃ c w, s.toList = c :: w ∧ isWordChar c = true := by
  cases hs : s.toList with
  | nil => exact absurd (String.toList_eq_nil_iff.1 hs) hn
  | cons c w => exact ⟨c, w, rfl, h c (hs ▸ List.mem_cons_self)⟩

/-- **The first character of a core** tells which bracket it starts with. -/
theorem Core.exists_cons {c : Core} (h : c.Sound) (r : List Char) :
    ∃ a w, c.text.toList ++ r = a :: w ∧ opens a = true ∧ c.bracket = bracketOf a := by
  have word : ∀ {s : String} {r : List Char}, s ≠ "" → IsWord s →
      ∃ a w, s.toList ++ r = a :: w ∧ opens a = true ∧ none = bracketOf a := by
    intro s r hn hs
    obtain ⟨a, w, hw, ha⟩ := hs.exists_cons hn
    exact ⟨a, w ++ r, by rw [hw, List.cons_append], by simp [opens, ha],
      (bracketOf_eq_none ha).symm⟩
  cases c with
  | name s =>
    rcases h with ⟨hn, hs⟩ | ⟨w, hw, -⟩
    · exact word hn hs
    · exact ⟨'"', _, by rw [text, hw, List.cons_append], rfl, rfl⟩
  | applied s f v =>
    rw [toList_applied_append]
    exact word h.1 h.2.1
  | group j fs => exact ⟨'(', _, toList_group_append j fs r, rfl, rfl⟩
  | arrow fs f => exact ⟨'(', _, toList_arrow_append fs f r, rfl, rfl⟩
  | braces ms => exact ⟨'{', _, toList_braces_append ms r, rfl, rfl⟩

/-- Two cores that start alike start with the same bracket, or both with none. -/
theorem Core.bracket_eq {c d : Core} {r s : List Char} (hc : c.Sound) (hd : d.Sound)
    (h : c.text.toList ++ r = d.text.toList ++ s) : c.bracket = d.bracket := by
  obtain ⟨a, v, ha, -, hca⟩ := exists_cons hc r
  obtain ⟨b, w, hb, -, hdb⟩ := exists_cons hd s
  rw [ha, hb] at h
  rw [hca, hdb, (List.cons.inj h).1]

/-- A core, after any number of words `readonly`, starts with a character that opens a phrase. -/
theorem Core.exists_cons_repeated {c : Core} (h : c.Sound) (k : Nat) (r : List Char) :
    ∃ a w, (repeated k "readonly ").toList ++ (c.text.toList ++ r) = a :: w ∧ opens a = true := by
  cases k with
  | zero =>
    obtain ⟨a, w, ha, ho, -⟩ := Core.exists_cons h r
    exact ⟨a, w, by simpa [repeated] using ha, ho⟩
  | succ k => exact ⟨'r', _, by simp [repeated, List.replicate_succ]; rfl, rfl⟩

/-- A phrase starts with a character that opens one. -/
theorem Phrase.exists_cons {f : Phrase} (h : f.Sound) (r : List Char) :
    ∃ a w, f.text.toList ++ r = a :: w ∧ opens a = true := by
  obtain ⟨k, c, n⟩ := f
  rw [toList_text_append]
  exact Core.exists_cons_repeated h.1 k _

/-! ### Lists between brackets -/

/-- The text of an item and what stands after it determine the item. -/
def Separable {α : Type} (text : α → String) (Sound : α → Prop) (a : α) : Prop :=
  ∀ ⦃b : α⦄ ⦃r s : List Char⦄, Sound b → EndsPhrase r → EndsPhrase s →
    (text a).toList ++ r = (text b).toList ++ s → a = b ∧ r = s

/-- The brackets that close a list. -/
def listEnds : List Char :=
  [')', '}']

theorem mem_phraseEnds_of_mem {e : Char} (h : e ∈ listEnds) : e ∈ phraseEnds := by
  have hsub : listEnds ⊆ phraseEnds := by decide
  exact hsub h

/-- After an item comes a joint or the bracket that closes the list. -/
theorem endsPhrase_moreItems {α : Type} {text : α → String} {j : Joint} {as : List α} {e : Char}
    {r : List Char} (he : e ∈ listEnds) :
    EndsPhrase (Text.moreItems text j.text as ++ e :: r) := by
  have hsub : listEnds ⊆ [',', '>', ')', '}'] := by decide
  cases as with
  | nil => exact .inl (by simpa [Text.moreItems] using hsub he)
  | cons a as =>
    rw [Text.moreItems_cons_append]
    cases j with
    | comma => exact .inl (startsIn_cons.2 (by decide))
    | bar => exact .inr ⟨'|', _, rfl, by decide⟩
    | amp => exact .inr ⟨'&', _, rfl, by decide⟩

/-- Joints differ in their first two characters. -/
theorem Joint.append_inj {i j : Joint} {r s : List Char}
    (h : i.text.toList ++ r = j.text.toList ++ s) : i = j ∧ r = s := by
  cases i <;> cases j <;> simp_all [Joint.text]

section Lists

variable {α : Type} {text : α → String} {Sound : α → Prop} {e : Char} {i j : Joint}

theorem moreItems_append_inj {as bs : List α} {r s : List Char} (he : e ∈ listEnds)
    (hs : ∀ a ∈ as, Separable text Sound a) (hb : ∀ b ∈ bs, Sound b)
    (h : Text.moreItems text i.text as ++ e :: r = Text.moreItems text j.text bs ++ e :: s) :
    as = bs ∧ r = s ∧ (as ≠ [] → i = j) := by
  have hjoint : ∀ (j : Joint) (x y : List Char), e :: x ≠ j.text.toList ++ y := by
    intro j x y h
    cases j <;> simp_all [Joint.text, listEnds]
  induction as generalizing bs with
  | nil =>
    cases bs with
    | nil => simpa [Text.moreItems] using h
    | cons b bs =>
      rw [Text.moreItems_cons_append] at h
      exact absurd h (hjoint j _ _)
  | cons a as ih =>
    rw [List.forall_mem_cons] at hs
    rw [Text.moreItems_cons_append] at h
    cases bs with
    | nil => exact absurd h.symm (hjoint i _ _)
    | cons b bs =>
      rw [List.forall_mem_cons] at hb
      rw [Text.moreItems_cons_append] at h
      obtain ⟨rfl, ht⟩ := Joint.append_inj h
      obtain ⟨rfl, hm⟩ := hs.1 hb.1 (endsPhrase_moreItems he) (endsPhrase_moreItems he) ht
      obtain ⟨rfl, rfl, -⟩ := ih hs.2 hb.2 hm
      exact ⟨rfl, rfl, fun _ => rfl⟩

/-- **A list between brackets** is determined by its text, and so is its joint if it has two items
or more. -/
theorem joined_append_inj {as bs : List α} {r s : List Char} (he : e ∈ listEnds)
    (hopen : ∀ a, Sound a → ∀ r, ∃ c w, (text a).toList ++ r = c :: w ∧ opens c = true)
    (hs : ∀ a ∈ as, Separable text Sound a) (ha : ∀ a ∈ as, Sound a) (hb : ∀ b ∈ bs, Sound b)
    (h : (i.text.intercalate (as.map text)).toList ++ e :: r =
      (j.text.intercalate (bs.map text)).toList ++ e :: s) :
    as = bs ∧ r = s ∧ (2 ≤ as.length → i = j) := by
  have hclosed : ∀ {a x y}, Sound a → (text a).toList ++ x ≠ e :: y := by
    intro a x y ha h
    obtain ⟨c, w, hc, ho⟩ := hopen a ha x
    obtain rfl := (List.cons.inj (hc.symm.trans h)).1
    rw [opens_eq_false_of_mem (List.mem_cons_of_mem _ (mem_phraseEnds_of_mem he))] at ho
    cases ho
  cases as with
  | nil =>
    cases bs with
    | nil => simpa using h
    | cons b bs =>
      rw [Text.toList_intercalate_cons, List.append_assoc] at h
      exact absurd h.symm (hclosed (hb b List.mem_cons_self))
  | cons a as =>
    rw [List.forall_mem_cons] at hs ha
    rw [Text.toList_intercalate_cons, List.append_assoc] at h
    cases bs with
    | nil => exact absurd h (hclosed ha.1)
    | cons b bs =>
      rw [List.forall_mem_cons] at hb
      rw [Text.toList_intercalate_cons, List.append_assoc] at h
      obtain ⟨rfl, hm⟩ := hs.1 hb.1 (endsPhrase_moreItems he) (endsPhrase_moreItems he) h
      obtain ⟨rfl, rfl, hj⟩ := moreItems_append_inj he hs.2 hb.2 hm
      refine ⟨rfl, rfl, fun hl => hj fun hn => ?_⟩
      simp [hn] at hl

end Lists

/-! ### Names, cores and members before a rest -/

/-- A word and a quotation start differently. -/
theorem IsWord.ne_quotation {v w : String} {r s : List Char} (hn : v ≠ "") (hv : IsWord v)
    (hw : IsQuotation w) : v.toList ++ r ≠ w.toList ++ s := by
  obtain ⟨c, x, hc, ho⟩ := hv.exists_cons hn
  obtain ⟨y, hy, -⟩ := hw
  rw [hc, hy]
  intro h
  cases (List.cons.inj h).1
  cases ho

theorem IsName.append_inj {v w : String} {r s : List Char} (hv : IsName v) (hw : IsName w)
    (hr : StartsIn coreEnds r) (hs : StartsIn coreEnds s) (h : v.toList ++ r = w.toList ++ s) :
    v = w ∧ r = s := by
  rcases hv with ⟨hvn, hv⟩ | hv <;> rcases hw with ⟨hwn, hw⟩ | hw
  · exact word_append_inj hv hw (hr.mono (by decide)) (hs.mono (by decide)) h
  · exact absurd h (hv.ne_quotation hvn hw)
  · exact absurd h.symm (hw.ne_quotation hwn hv)
  · exact quotation_append_inj hv hw h

/-- The name that is applied ends before its argument. -/
theorem startsIn_angle {r : List Char} : StartsIn wordEnds ('<' :: r) :=
  startsIn_cons.2 (by decide)

/-- A name that stands alone is not applied. -/
theorem IsName.ne_applied {v w : String} {r s : List Char} (hv : IsName v) (hn : w ≠ "")
    (hw : IsWord w) (hr : StartsIn coreEnds r) : v.toList ++ r ≠ w.toList ++ '<' :: s := by
  intro h
  rcases hv with ⟨-, hv⟩ | hv
  · obtain ⟨-, rfl⟩ := word_append_inj hv hw (hr.mono (by decide)) startsIn_angle h
    exact absurd (startsIn_cons.1 hr) (by decide)
  · exact hw.ne_quotation hn hv h.symm

/-- Behind a phrase there are no more brackets. -/
theorem EndsPhrase.ne_brackets {r : List Char} (h : EndsPhrase r) (s : List Char) :
    r ≠ "[]".toList ++ s := by
  rintro rfl
  exact absurd (startsIn_cons.1 h.startsIn) (by decide)

/-- What may stand behind a phrase may stand behind its core, after pairs of brackets. -/
theorem EndsPhrase.startsIn_repeated {r : List Char} (h : EndsPhrase r) (n : Nat) :
    StartsIn coreEnds ((repeated n "[]").toList ++ r) := by
  cases n with
  | zero => simpa [repeated] using h.startsIn.mono (by decide)
  | succ n => simp [repeated, List.replicate_succ, coreEnds]

/-- **Pairs of brackets end where the phrase does.** -/
theorem brackets_append_inj {m n : Nat} {r s : List Char} (hr : EndsPhrase r) (hs : EndsPhrase s)
    (h : (repeated m "[]").toList ++ r = (repeated n "[]").toList ++ s) : m = n ∧ r = s :=
  repeated_append_inj (fun _ => hr.ne_brackets _) (fun _ => hs.ne_brackets _) h

/-- A text that starts with a core does not start with a word `readonly` in front of a phrase. -/
theorem Core.ne_readonly {c : Core} {n : Nat} {r x : List Char} (h : c.Sound) (hr : EndsPhrase r)
    (hx : ∃ a w, x = a :: w ∧ opens a = true) :
    c.text.toList ++ ((repeated n "[]").toList ++ r) ≠ "readonly ".toList ++ x := by
  have hword : IsWord "readonly" := by decide
  have hspace : StartsIn wordEnds (' ' :: x) := startsIn_cons.2 (by decide)
  have hsplit : "readonly ".toList ++ x = "readonly".toList ++ ' ' :: x := rfl
  rw [hsplit]
  intro he
  cases c with
  | name v =>
    rcases h with ⟨-, hv⟩ | hv
    · have hv' : StartsIn wordEnds ((repeated n "[]").toList ++ r) :=
        (hr.startsIn_repeated n).mono (by decide)
      have hrest := (word_append_inj hv hword hv' hspace he).2
      cases n with
      | zero =>
        -- the name `readonly` itself: the blank behind it would be that of a joint
        obtain ⟨a, w, rfl, ho⟩ := hx
        obtain rfl : r = ' ' :: a :: w := by simpa [repeated] using hrest
        rcases hr with hr | ⟨b, s, hb, hm⟩
        · exact absurd (startsIn_cons.1 hr) (by decide)
        · obtain rfl := (List.cons.inj (List.cons.inj hb).2).1
          have hclosed : ['|', '&'].all (!opens ·) = true := by decide
          simpa [ho] using List.all_eq_true.1 hclosed a hm
      | succ n => simp [repeated, List.replicate_succ] at hrest
    · exact hword.ne_quotation (by decide) hv he.symm
  | applied w f v =>
    rw [toList_applied_append] at he
    cases (word_append_inj h.2.1 hword startsIn_angle hspace he).2
  | group | arrow | braces =>
    obtain ⟨a, w, ha, -, hb⟩ := exists_cons h ((repeated n "[]").toList ++ r)
    rw [ha] at he
    cases (List.cons.inj he).1
    cases hb

/-- **The words `readonly` end where the core begins.** -/
theorem Core.front_append_inj {c d : Core} {k l m n : Nat} {r s : List Char} (hc : c.Sound)
    (hd : d.Sound) (hr : EndsPhrase r) (hs : EndsPhrase s)
    (h : (repeated k "readonly ").toList ++ (c.text.toList ++ ((repeated m "[]").toList ++ r)) =
      (repeated l "readonly ").toList ++ (d.text.toList ++ ((repeated n "[]").toList ++ s))) :
    k = l ∧ c.text.toList ++ ((repeated m "[]").toList ++ r) =
      d.text.toList ++ ((repeated n "[]").toList ++ s) :=
  repeated_append_inj (fun i => Core.ne_readonly hc hr (Core.exists_cons_repeated hd i _))
    (fun i => Core.ne_readonly hd hs (Core.exists_cons_repeated hc i _)) h

theorem toList_memberText_append (m : Member Phrase) (r : List Char) :
    (m.text m.type.text).toList ++ r =
      (cond m.readonly "readonly " "").toList ++ (m.name.toList ++
        ((cond m.optional "?" "").toList ++ ':' :: ' ' :: (m.type.text.toList ++ r))) := by
  simp [Member.text]

/-- A name of a member ends before what follows it. -/
theorem startsIn_optional (o : Bool) (r : List Char) :
    StartsIn wordEnds ((cond o "?" "").toList ++ ':' :: r) := by
  cases o <;> simp [wordEnds]

/-- The names of members and their signs. -/
theorem label_append_inj {v w : String} {a b o q : Bool} {r s : List Char}
    (hv : IsWord v) (hw : IsWord w)
    (h : (cond a "readonly " "").toList ++ (v.toList ++ ((cond o "?" "").toList ++ ':' :: r)) =
      (cond b "readonly " "").toList ++ (w.toList ++ ((cond q "?" "").toList ++ ':' :: s))) :
    v = w ∧ a = b ∧ o = q ∧ r = s := by
  have hword : IsWord "readonly" := by decide
  have front : ∀ {w : String} {o : Bool} {r s : List Char}, IsWord w →
      "readonly ".toList ++ s ≠ w.toList ++ ((cond o "?" "").toList ++ ':' :: r) := by
    intro w o r s hw h
    have hs : "readonly ".toList ++ s = "readonly".toList ++ ' ' :: s := rfl
    rw [hs] at h
    have := (word_append_inj hword hw (startsIn_cons.2 (by decide)) (startsIn_optional o r) h).2
    cases o <;> simp at this
  have ends : ∀ {r s : List Char}, v.toList ++ ((cond o "?" "").toList ++ ':' :: r) =
      w.toList ++ ((cond q "?" "").toList ++ ':' :: s) → v = w ∧ o = q ∧ r = s := by
    intro r s h
    obtain ⟨rfl, h⟩ := word_append_inj hv hw (startsIn_optional o r) (startsIn_optional q s) h
    cases o <;> cases q <;> simp_all
  cases a <;> cases b
  · obtain ⟨rfl, rfl, rfl⟩ := ends h
    exact ⟨rfl, rfl, rfl, rfl⟩
  · exact absurd h.symm (front hv)
  · exact absurd h (front hw)
  · obtain ⟨rfl, rfl, rfl⟩ := ends (List.append_cancel_left h)
    exact ⟨rfl, rfl, rfl, rfl⟩

/-- The text of a member. -/
def memberText (m : Member Phrase) : String :=
  m.text m.type.text

/-- A member whose text can be read back. -/
def SoundMember (m : Member Phrase) : Prop :=
  m.name ≠ "" ∧ IsWord m.name ∧ m.type.Sound

/-- A member is determined by a text that starts with it, if its type is. -/
theorem separable_member {m : Member Phrase} (hm : IsWord m.name)
    (h : Separable Phrase.text Phrase.Sound m.type) : Separable memberText SoundMember m := by
  obtain ⟨v, f, o, a⟩ := m
  rintro ⟨w, g, q, b⟩ r s hn hr hs he
  rw [memberText, memberText, toList_memberText_append, toList_memberText_append] at he
  obtain ⟨rfl, rfl, rfl, he⟩ := label_append_inj hm hn.2.1 he
  obtain ⟨rfl, ht⟩ := h hn.2.2 hr hs (List.cons.inj he).2
  exact ⟨rfl, ht⟩

theorem exists_cons_memberText {m : Member Phrase} (h : SoundMember m) (r : List Char) :
    ∃ c w, (memberText m).toList ++ r = c :: w ∧ opens c = true := by
  rw [memberText, toList_memberText_append]
  cases m.readonly with
  | true => exact ⟨'r', _, rfl, rfl⟩
  | false =>
    obtain ⟨c, w, hc, ho⟩ := h.2.1.exists_cons h.1
    exact ⟨c, _, by simp only [cond, hc]; rfl, by simp [opens, ho]⟩

/-- Behind the argument of a name comes a comma or the closing bracket. -/
theorem endsPhrase_closing (v : Option String) (r : List Char) : EndsPhrase (closing v r) := by
  cases v <;> exact .inl (startsIn_cons.2 (by decide))

theorem closing_inj {v w : Option String} {r s : List Char} (hv : ∀ x ∈ v, IsWord x)
    (hw : ∀ x ∈ w, IsWord x) (h : closing v r = closing w s) : v = w ∧ r = s := by
  cases v with
  | none =>
    cases w with
    | none => exact ⟨rfl, (List.cons.inj h).2⟩
    | some w => cases (List.cons.inj h).1
  | some v =>
    cases w with
    | none => cases (List.cons.inj h).1
    | some w =>
      have hangle : ∀ x, StartsIn wordEnds ('>' :: x) := fun x => startsIn_cons.2 (by decide)
      obtain ⟨rfl, ht⟩ := word_append_inj (hv v rfl) (hw w rfl) (hangle r) (hangle s)
        (List.cons.inj (List.cons.inj h).2).2
      exact ⟨rfl, (List.cons.inj ht).2⟩

/-! ### Unambiguity -/

/-- A phrase before pairs of brackets is determined by a text that starts with both. -/
def Phrase.Determined (f : Phrase) : Prop :=
  ∀ ⦃g : Phrase⦄ ⦃j : Nat⦄ ⦃r s : List Char⦄, g.Sound → EndsPhrase r → EndsPhrase s →
    f.text.toList ++ ((repeated j "[]").toList ++ r) =
      g.text.toList ++ ((repeated j "[]").toList ++ s) → f = g ∧ r = s

theorem Phrase.Determined.separable {f : Phrase} (h : f.Determined) :
    Separable Phrase.text Phrase.Sound f := fun g r s hg hr hs he => by
  refine h (j := 0) hg hr hs ?_
  simpa [repeated] using he

mutual

/-- **A sound phrase before pairs of brackets is determined.** -/
theorem Phrase.determined : ∀ f : Phrase, f.Sound → f.Determined
  | .mk k c n, hf => by
    rintro ⟨l, d, m⟩ j r s hg hr hs h
    rw [Phrase.toList_text_append, Phrase.toList_text_append, toList_repeated_append,
      toList_repeated_append] at h
    -- from left to right: the words in front, the core, the brackets behind
    obtain ⟨rfl, hcore⟩ := Core.front_append_inj hf.1 hg.1 hr hs h
    have harrow : c.isArrow = true → d.isArrow = true → n + j = m + j := fun hc hd => by
      rw [Nat.le_antisymm (hf.2.2 hc) hf.2.1, Nat.le_antisymm (hg.2.2 hd) hg.2.1]
    obtain ⟨hcd, hback, hrs⟩ := Core.text_append_inj c hf.1 hg.1 hr hs harrow hcore
    exact ⟨by rw [hcd, Nat.add_right_cancel hback], hrs⟩

/-- A sound core before pairs of brackets is determined, and so is their number, which for two
arrows has to be the same. -/
theorem Core.text_append_inj : ∀ (c : Core) {d : Core} {m n : Nat} {r s : List Char}, c.Sound →
    d.Sound → EndsPhrase r → EndsPhrase s → (c.isArrow = true → d.isArrow = true → m = n) →
    c.text.toList ++ ((repeated m "[]").toList ++ r) =
      d.text.toList ++ ((repeated n "[]").toList ++ s) → c = d ∧ m = n ∧ r = s
  | .name v, d, m, n, r, s, hc, hd, hr, hs, _, h => by
    -- rules out the cores that start with another bracket
    have hb := Core.bracket_eq hc hd h
    cases d with
    | name w =>
      obtain ⟨rfl, hback⟩ :=
        IsName.append_inj hc hd (hr.startsIn_repeated m) (hs.startsIn_repeated n) h
      exact ⟨rfl, brackets_append_inj hr hs hback⟩
    | applied w g x =>
      rw [Core.toList_applied_append] at h
      exact absurd h (IsName.ne_applied hc hd.1 hd.2.1 (hr.startsIn_repeated m))
    | _ => cases hb
  | .applied v f x, d, m, n, r, s, hc, hd, hr, hs, _, h => by
    have hb := Core.bracket_eq hc hd h
    rw [Core.toList_applied_append] at h
    cases d with
    | name w =>
      exact absurd h.symm (IsName.ne_applied hd hc.1 hc.2.1 (hs.startsIn_repeated n))
    | applied w g y =>
      rw [Core.toList_applied_append] at h
      obtain ⟨hvw, h₁⟩ := word_append_inj hc.2.1 hd.2.1 startsIn_angle startsIn_angle h
      obtain ⟨hfg, h₂⟩ := (Phrase.determined f hc.2.2.1).separable hd.2.2.1
        (endsPhrase_closing x _) (endsPhrase_closing y _) (List.cons.inj h₁).2
      obtain ⟨hxy, hback⟩ := closing_inj hc.2.2.2 hd.2.2.2 h₂
      exact ⟨by rw [hvw, hfg, hxy], brackets_append_inj hr hs hback⟩
    | _ => cases hb
  | .group i fs, d, m, n, r, s, hc, hd, hr, hs, _, h => by
    have hb := Core.bracket_eq hc hd h
    rw [Core.toList_group_append, texts_eq_map] at h
    have hsep := separable_of_mem fs hc.2.2
    cases d with
    | group j gs =>
      rw [Core.toList_group_append, texts_eq_map] at h
      obtain ⟨hfg, hback, hj⟩ := joined_append_inj (by decide) (fun _ => Phrase.exists_cons) hsep
        (soundAll_iff.1 hc.2.2) (soundAll_iff.1 hd.2.2) (List.cons.inj h).2
      exact ⟨by rw [hj hc.2.1, hfg], brackets_append_inj hr hs hback⟩
    | arrow gs g =>
      rw [Core.toList_arrow_append, texts_eq_map] at h
      -- a group has two parts or more, so its joint shows, and it is not that of arguments
      obtain ⟨-, -, hj⟩ := joined_append_inj (by decide) (fun _ => Phrase.exists_cons) hsep
        (soundAll_iff.1 hc.2.2) (soundAll_iff.1 hd.1) (List.cons.inj h).2
      exact absurd (hj hc.2.1) hc.1
    | _ => cases hb
  | .arrow fs f, d, m, n, r, s, hc, hd, hr, hs, hmn, h => by
    have hb := Core.bracket_eq hc hd h
    rw [Core.toList_arrow_append, texts_eq_map] at h
    have hsep := separable_of_mem fs hc.1
    cases d with
    | group j gs =>
      rw [Core.toList_group_append, texts_eq_map] at h
      obtain ⟨hfg, -, hj⟩ := joined_append_inj (by decide) (fun _ => Phrase.exists_cons) hsep
        (soundAll_iff.1 hc.1) (soundAll_iff.1 hd.2.2) (List.cons.inj h).2
      exact absurd (hj (hfg ▸ hd.2.1)).symm hd.1
    | arrow gs g =>
      obtain rfl := hmn rfl rfl
      rw [Core.toList_arrow_append, texts_eq_map] at h
      obtain ⟨hargs, h₁, -⟩ := joined_append_inj (by decide) (fun _ => Phrase.exists_cons) hsep
        (soundAll_iff.1 hc.1) (soundAll_iff.1 hd.1) (List.cons.inj h).2
      -- the brackets behind an arrow stand behind its result
      obtain ⟨hfg, hrs⟩ := Phrase.determined f hc.2 hd.2 hr hs (List.append_cancel_left h₁)
      exact ⟨by rw [hargs, hfg], rfl, hrs⟩
    | _ => cases hb
  | .braces ms, d, m, n, r, s, hc, hd, hr, hs, _, h => by
    have hb := Core.bracket_eq hc hd h
    rw [Core.toList_braces_append, memberTexts_eq_map] at h
    cases d with
    | braces ns =>
      rw [Core.toList_braces_append, memberTexts_eq_map] at h
      have hopen : ∀ m : Member Phrase, SoundMember m → ∀ r : List Char,
          ∃ a w, (memberText m).toList ++ r = a :: w ∧ opens a = true :=
        fun _ => exists_cons_memberText
      obtain ⟨hmn, hback, -⟩ := joined_append_inj (by decide) hopen
        (separable_of_mem_members ms hc) (soundMembers_iff.1 hc) (soundMembers_iff.1 hd)
        (List.cons.inj h).2
      exact ⟨by rw [hmn], brackets_append_inj hr hs hback⟩
    | _ => cases hb

/-- Each of several phrases is determined. -/
theorem separable_of_mem : ∀ fs : List Phrase, SoundAll fs →
    ∀ f ∈ fs, Separable Phrase.text Phrase.Sound f
  | [], _ => List.forall_mem_nil _
  | f :: fs, h =>
    List.forall_mem_cons.2 ⟨(Phrase.determined f h.1).separable, separable_of_mem fs h.2⟩

/-- Each of several members is determined. -/
theorem separable_of_mem_members : ∀ ms : List (Member Phrase), SoundMembers ms →
    ∀ m ∈ ms, Separable memberText SoundMember m
  | [], _ => List.forall_mem_nil _
  | ⟨_, f, _, _⟩ :: ms, h => List.forall_mem_cons.2
    ⟨separable_member h.1.2.1 (Phrase.determined f h.1.2.2).separable,
      separable_of_mem_members ms h.2⟩

end

/-- **A sound phrase is determined by a text that starts with it.** -/
theorem Phrase.separable {f : Phrase} (h : f.Sound) : Separable Phrase.text Phrase.Sound f :=
  (Phrase.determined f h).separable

end NativeTypes.Annotation
