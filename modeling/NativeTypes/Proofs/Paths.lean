import NativeTypes.Proofs.Joined
import NativeTypes.Report

/-! # Texts of paths

The text of a segment is a dot, a label that says of which kind the segment is, and an operand: an
index in brackets, or the name of a member after another dot. A label consists of letters and ends
where the operand starts or the next segment does, and so does a name that has no dot itself. The
segments of a path can therefore be taken off its text one after the other, whatever else the names
hold.

* `Segment.text_append_inj`: a text that starts with a segment determines it and what comes after.
* `Path.trail_injective`: the texts of the segments of a path determine the path.
* `Path.text_eq_text_iff`: **paths are told apart by their texts**, and so are locations in one
  definition. -/

namespace NativeTypes

namespace Segment

/-- The word that says of which kind a segment is. -/
def label : Segment → String
  | element => "element"
  | result => "returnType"
  | argument _ => "argumentTypes"
  | alternative _ => "elements"
  | mixin _ => "mixins"
  | member _ => "members"

/-- What stands behind the label. -/
def operand : Segment → String
  | element | result => ""
  | argument i | alternative i | mixin i => "[" ++ i.repr ++ "]"
  | member n => "." ++ n

theorem text_eq (g : Segment) : g.text = "." ++ g.label ++ g.operand := by
  have index : ∀ {o a : String}, o = "." ++ a ++ "[" → ∀ i : String,
      o ++ i ++ "]" = "." ++ a ++ ("[" ++ i ++ "]") := by
    rintro _ a rfl i
    simp only [String.append_assoc]
  cases g with
  | element | result => rfl
  | argument i => exact index (a := "argumentTypes") (by decide) i.repr
  | alternative i => exact index (a := "elements") (by decide) i.repr
  | mixin i => exact index (a := "mixins") (by decide) i.repr
  | member n =>
    have hlabel : ".members." = "." ++ "members" ++ "." := by decide
    change ".members." ++ n = "." ++ "members" ++ ("." ++ n)
    rw [hlabel, String.append_assoc]

/-- The characters of a segment and what comes after it. -/
theorem toList_text_append (g : Segment) (r : List Char) :
    g.text.toList ++ r = '.' :: (g.label.toList ++ (g.operand.toList ++ r)) := by
  rw [text_eq, String.toList_append, String.toList_append]
  simp

theorem isAlpha_of_mem_label {g : Segment} : ∀ c ∈ g.label.toList, c.isAlpha = true := by
  have hall : g.label.toList.all Char.isAlpha = true := by
    cases g <;> simp only [label] <;> decide
  exact List.all_eq_true.1 hall

/-- A name without dots, if the segment has one. -/
def Undotted (g : Segment) : Prop :=
  ∀ n, g = member n → '.' ∉ n.toList

variable {g g' : Segment} {r r' : List Char}

/-- No letter comes after a label. -/
theorem head?_operand_append (hr : ∀ c ∈ r.head?, c = '.') :
    ∀ c ∈ (g.operand.toList ++ r).head?, c.isAlpha = false := by
  cases g with
  | element | result =>
    intro c hc
    rw [hr c hc]
    decide
  | argument | alternative | mixin | member => simp [operand]

/-- An index in brackets determines the index and what comes after. -/
theorem index_append_inj {i j : Nat}
    (h : ("[" ++ i.repr ++ "]").toList ++ r = ("[" ++ j.repr ++ "]").toList ++ r') :
    i = j ∧ r = r' := by
  simp only [String.toList_append, List.append_assoc, List.append_cancel_left_eq] at h
  obtain ⟨hij, hrest⟩ := Text.repr_append_inj (by simp) (by simp) h
  exact ⟨hij, List.append_cancel_left hrest⟩

/-- A name without dots ends where the next segment starts. -/
theorem name_append_inj {m n : String} (hm : '.' ∉ m.toList) (hn : '.' ∉ n.toList)
    (hr : ∀ c ∈ r.head?, c = '.') (hr' : ∀ c ∈ r'.head?, c = '.')
    (h : m.toList ++ r = n.toList ++ r') : m = n ∧ r = r' := by
  have other : ∀ {l : List Char}, '.' ∉ l → ∀ c ∈ l, (c != '.') = true := fun hl c hc =>
    bne_iff_ne.2 fun hd => hl (hd ▸ hc)
  have dot : ∀ {l : List Char}, (∀ c ∈ l.head?, c = '.') → ∀ c ∈ l.head?, (c != '.') = false :=
    fun hl c hc => bne_eq_false_iff_eq.2 (hl c hc)
  obtain ⟨hmn, hrr⟩ := Text.span_append_inj (other hm) (other hn) (dot hr) (dot hr') h
  exact ⟨String.toList_inj.1 hmn, hrr⟩

/-- **A text that starts with a segment determines it and what comes after**, if that is nothing or
another segment. -/
theorem text_append_inj (hg : g.Undotted) (hg' : g'.Undotted) (hr : ∀ c ∈ r.head?, c = '.')
    (hr' : ∀ c ∈ r'.head?, c = '.') (h : g.text.toList ++ r = g'.text.toList ++ r') :
    g = g' ∧ r = r' := by
  rw [toList_text_append, toList_text_append, List.cons.injEq] at h
  obtain ⟨hlabel, hrest⟩ := Text.span_append_inj isAlpha_of_mem_label isAlpha_of_mem_label
    (head?_operand_append hr) (head?_operand_append hr') h.2
  replace hlabel := String.toList_inj.1 hlabel
  -- segments of different kinds have different labels
  cases g <;> cases g' <;> simp only [label, String.reduceEq] at hlabel
  case element.element | result.result => exact ⟨rfl, hrest⟩
  case argument.argument | alternative.alternative | mixin.mixin =>
    obtain ⟨rfl, hr⟩ := index_append_inj hrest
    exact ⟨rfl, hr⟩
  case member.member m n =>
    simp only [operand, String.toList_append, List.append_assoc, List.append_cancel_left_eq]
      at hrest
    obtain ⟨rfl, hrr⟩ := name_append_inj (hg m rfl) (hg' n rfl) hr hr' hrest
    exact ⟨rfl, hrr⟩

end Segment

namespace Path

/-- A path on which no member has a dot in its name. -/
def Undotted (p : Path) : Prop :=
  ∀ g ∈ p, g.Undotted

theorem toList_trail_cons (g : Segment) (p : Path) :
    (trail (g :: p)).toList = g.text.toList ++ p.trail.toList := by
  rw [trail, List.map_cons, String.join_cons, String.toList_append, trail]

/-- What comes after a segment is nothing or starts with a dot. -/
theorem head?_toList_trail (p : Path) : ∀ c ∈ p.trail.toList.head?, c = '.' := by
  cases p with
  | nil => simp [trail]
  | cons g p =>
    rw [toList_trail_cons, Segment.toList_text_append]
    simp

theorem toList_trail_cons_ne_nil (g : Segment) (p : Path) : (trail (g :: p)).toList ≠ [] := by
  rw [toList_trail_cons, Segment.toList_text_append]
  exact List.cons_ne_nil _ _

/-- **The texts of the segments of a path determine the path.** -/
theorem trail_injective {p q : Path} (hp : p.Undotted) (hq : q.Undotted)
    (h : p.trail.toList = q.trail.toList) : p = q := by
  induction p generalizing q with
  | nil =>
    cases q with
    | nil => rfl
    | cons g q => exact absurd h.symm (toList_trail_cons_ne_nil g q)
  | cons g p ih =>
    cases q with
    | nil => exact absurd h (toList_trail_cons_ne_nil g p)
    | cons g' q =>
      obtain ⟨hg, hp⟩ := List.forall_mem_cons.1 hp
      obtain ⟨hg', hq⟩ := List.forall_mem_cons.1 hq
      rw [toList_trail_cons, toList_trail_cons] at h
      obtain ⟨hgg, hpq⟩ := Segment.text_append_inj hg hg' (head?_toList_trail p)
        (head?_toList_trail q) h
      rw [hgg, ih hp hq hpq]

/-- **Paths are told apart by their texts**, and so are locations in one definition. -/
theorem text_eq_text_iff {p q : Path} (hp : p.Undotted) (hq : q.Undotted) :
    (p.text = q.text ↔ p = q) ∧
    ∀ name : String, Location.text ⟨some name, some p⟩ = Location.text ⟨some name, some q⟩ ↔
      p = q := by
  have htrail : ∀ s : String, s ++ p.trail = s ++ q.trail ↔ p = q := by
    intro s
    rw [String.append_right_inj, ← String.toList_inj]
    exact ⟨trail_injective hp hq, fun h => h ▸ rfl⟩
  -- the same trail comes after the sign of the root and after the name of a definition
  exact ⟨htrail "$", htrail⟩

/-- A member of the name of a label, and one without a name, in either order. -/
theorem text_ne_text_of_empty_name :
    let p : Path := [.member "members", .member "", .mixin 10]
    let q : Path := [.member "", .member "members", .mixin 10]
    p.Undotted ∧ q.Undotted ∧ p.text ≠ q.text ∧
      Location.text ⟨some "A.b", some p⟩ ≠ Location.text ⟨some "A.b", some q⟩ := by
  intro p q
  have hp : p.Undotted := by simp [p, Undotted, Segment.Undotted]
  have hq : q.Undotted := by simp [q, Undotted, Segment.Undotted]
  have hne : p ≠ q := by decide
  obtain ⟨htext, hlocation⟩ := text_eq_text_iff hp hq
  exact ⟨hp, hq, mt htext.1 hne, mt (hlocation "A.b").1 hne⟩

/-- A dot in a name is taken for the start of a segment. -/
example : Path.text [.member "a.element"] = Path.text [.member "a", .element] := by
  decide

end Path

end NativeTypes
