import Mathlib.Algebra.BigOperators.Group.List.Basic
import Mathlib.Data.List.Forall2
import NativeTypes.Listing
import NativeTypes.Proofs.Annotation.Denotation
import NativeTypes.Proofs.Lines
import NativeTypes.Proofs.Printing

/-! # The lines of a listing

A listing has a declaration for each definition, or a comment in its place, and means to give each a
line of its own. Names aside, the only texts in it that come from outside are the defaults: the
annotation of a well-shaped type shows all of them (`Ty.breaks_text_phrase`), and the message of an
error shows the default that it is about (`Ty.breaks_message`), each as it was written. A default
may have line breaks, in a string or where it does not fit, and they end the line, and the comment.
So a definition takes one line and as many more as its shown defaults have breaks
(`Container.breaks_declarations`), and there is one line for each exactly if these have none
(`Container.exists_isLines_declarations_iff`). -/

namespace NativeTypes

open Text (breaks breaks_append breaks_applied breaks_intercalate breaks_ofList)
open Annotation (Core Joint texts texts_eq_map)

/-! ### The breaks of annotations -/

namespace Ty

/-- Whether the names that a type shows have no line breaks, its parts aside. -/
def hasUnbrokenNames : Ty → Bool
  | reference n => breaks n == 0
  | objectLiteral _ ms _ => ms.all fun m => breaks m.name == 0
  | _ => true

/-- The line breaks in the default that a type gives, if it gives one, its parts aside. -/
def defaultBreaks : Ty → Nat
  | withDefault _ v => breaks v
  | _ => 0

/-- The line breaks in all defaults of a type. -/
def allDefaultBreaks (t : Ty) : Nat :=
  (t.visits.map fun c => c.2.defaultBreaks).sum

theorem allDefaultBreaks_eq (t : Ty) :
    t.allDefaultBreaks = t.defaultBreaks + (t.children.map fun c => c.2.allDefaultBreaks).sum := by
  rw [allDefaultBreaks, visits_eq, List.map_cons, List.sum_cons, List.map_flatMap, List.flatMap_def,
    List.sum_flatten, List.map_map]
  simp only [through, List.map_map, Function.comp_def]
  rfl

theorem sum_breaks_numbered (segment : Nat → Segment) (ts : List Ty) :
    ((numbered segment ts).map fun c => breaks c.2.phrase.text).sum =
      (ts.map fun t => breaks t.phrase.text).sum := by
  have hfst : ((numbered segment ts).map fun c => breaks c.2.phrase.text) =
      (ts.zipIdx.map Prod.fst).map fun t => breaks t.phrase.text := by
    simp only [numbered, List.map_map]
    rfl
  rw [hfst, List.zipIdx_map_fst]

/-- The annotations of a list of types have the breaks of each. -/
theorem sum_breaks_texts (ts : List Ty) :
    ((texts (phrases ts)).map breaks).sum =
      (ts.map fun t => breaks t.phrase.text).sum := by
  rw [texts_eq_map, phrases_eq_map, List.map_map, List.map_map]
  rfl

/-- The texts of members have the breaks of the annotations, if the names have none. -/
theorem sum_breaks_memberTexts {ms : List (Member Ty)} (h : ∀ m ∈ ms, breaks m.name = 0) :
    (List.map breaks <| Annotation.memberTexts (memberPhrases ms)).sum =
      (ms.map fun m => breaks m.type.phrase.text).sum := by
  induction ms with
  | nil => rfl
  | cons m ms ih =>
    obtain ⟨n, t, o, r⟩ := m
    rw [List.forall_mem_cons] at h
    have hreadonly : breaks (cond r "readonly " "") = 0 := by cases r <;> decide
    have hoptional : breaks (cond o "?" "") = 0 := by cases o <;> decide
    have hmember : breaks (Member.text ⟨n, t.phrase, o, r⟩ t.phrase.text) =
        breaks t.phrase.text := by
      have hcolon : breaks ": " = 0 := breaks_ofList (by decide)
      simp [Member.text, hreadonly, hoptional, hcolon, h.1]
    simp only [memberPhrases, Annotation.memberTexts, List.map_cons, List.sum_cons, ih h.2, hmember]

theorem breaks_annotationText (p : Primitive) : breaks p.annotationText = 0 := by
  cases p <;> decide

/-- The text of a type has the breaks of its default and those of the texts of its parts. -/
theorem breaks_text_of_children {t : Ty} (h : t.hasUnbrokenNames = true) :
    breaks t.phrase.text =
      t.defaultBreaks + (t.children.map fun c => breaks c.2.phrase.text).sum := by
  cases t with
  | primitive p => simp [phrase, Core.text, defaultBreaks, children, breaks_annotationText]
  | predefined p =>
    have hp : breaks p.name = 0 := by cases p <;> decide
    simp [phrase, Core.text, defaultBreaks, children, hp]
  | reference n =>
    have hn : breaks n = 0 := eq_of_beq h
    simp [phrase, Core.text, defaultBreaks, children, hn]
  | array r t =>
    have hreadonly : breaks (cond r "readonly " "") = 0 := by cases r <;> decide
    have hbrackets : breaks "[]" = 0 := breaks_ofList (by decide)
    simp [phrase, Annotation.text_listed, defaultBreaks, children, hreadonly, hbrackets]
  | operator o t =>
    rw [phrase, Annotation.text_alone, ← Operator.text_core]
    cases o with
    | promise | readonly =>
      simp only [Operator.annotationText, breaks_applied, defaultBreaks, children, List.map_cons,
        List.map_nil, List.sum_cons, List.sum_nil]
      rfl
    | optional =>
      have hundefined : breaks " | undefined" = 0 := breaks_ofList (by decide)
      simp [Operator.annotationText, hundefined, defaultBreaks, children]
  | withDefault t v =>
    have hname : breaks "WithDefault" = 0 := breaks_ofList (by decide)
    simp [phrase, Core.text, breaks_applied, hname, defaultBreaks, children, Nat.add_comm]
  | function t ts =>
    have harrow : breaks " -> " = 0 := breaks_ofList (by decide)
    have hcomma : breaks ", " = 0 := breaks_ofList (by decide)
    simp [phrase, Core.text, breaks_intercalate hcomma, sum_breaks_texts, harrow,
      defaultBreaks, children, sum_breaks_numbered, Nat.add_comm]
  | objectLiteral ts ms f =>
    have hnames : ∀ m ∈ ms, breaks m.name = 0 := by simpa [hasUnbrokenNames] using h
    have hcomma : breaks ", " = 0 := breaks_ofList (by decide)
    have hamp : breaks " & " = 0 := breaks_ofList (by decide)
    rw [phrase, Annotation.text_alone, Annotation.text_objectCore, children, List.map_append,
      List.sum_append, sum_breaks_numbered, List.map_map, ← sum_breaks_texts]
    have hmembers : breaks (Text.braces <| String.intercalate ", " <|
        Annotation.memberTexts (memberPhrases ms)) =
          (ms.map fun m => breaks m.type.phrase.text).sum := by
      rw [Text.breaks_braces, breaks_intercalate hcomma, sum_breaks_memberTexts hnames]
    split
    · rename_i hempty
      rw [List.isEmpty_iff.1 hempty, hmembers]
      simp [defaultBreaks, Function.comp_def]
    · rw [Text.breaks_parens, breaks_intercalate hamp, List.map_append, List.sum_append,
        List.map_singleton, List.sum_singleton, hmembers]
      simp [defaultBreaks, Function.comp_def]
  | union ts =>
    have hbar : breaks (Joint.text .bar) = 0 := by decide
    simp [phrase, Core.text, breaks_intercalate hbar, sum_breaks_texts, defaultBreaks,
      children, sum_breaks_numbered]
  | enumeration p =>
    have hopen : breaks "\"enum of " = 0 := breaks_ofList (by decide)
    have hclose : breaks "\"" = 0 := breaks_ofList (by decide)
    simp [phrase, Core.text, hopen, hclose, defaultBreaks, children, breaks_annotationText]
  | event e t =>
    have hhandler : breaks e.handler = 0 := by cases e <;> decide
    simp [phrase, Core.text, breaks_applied, hhandler, defaultBreaks, children]

/-- **An annotation has the line breaks of the defaults**, if the names have none. -/
theorem breaks_text_phrase {t : Ty} (h : t.Everywhere hasUnbrokenNames) :
    breaks t.phrase.text = t.allDefaultBreaks := by
  induction t using induction_children with
  | step t ih =>
    obtain ⟨hnode, hparts⟩ := everywhere_iff.1 h
    rw [breaks_text_of_children hnode, allDefaultBreaks_eq]
    congr 2
    exact List.map_congr_left fun c hc => ih c hc (hparts c hc)

/-! ### The breaks of messages -/

theorem breaks_expectedDefault (t : Ty) : breaks t.expectedDefault = 0 := by
  rw [expectedDefault]
  split
  · rename_i p _
    cases p <;> decide
  · decide
  · decide
  · decide
  · decide

end Ty

theorem mem_of_firstRepeated {α : Type} [DecidableEq α] {seen l : List α} {a : α}
    (h : firstRepeated seen l = some a) : a ∈ l := by
  induction l generalizing seen with
  | nil => cases h
  | cons b l ih =>
    rw [firstRepeated] at h
    split at h
    · cases h
      exact List.mem_cons_self
    · exact List.mem_cons_of_mem b (ih h)

/-- The line breaks in the default that a violation is about, if it is about one. -/
def Violation.literalBreaks : Violation → Nat
  | invalidDefault l _ => breaks l
  | _ => 0

namespace Ty

theorem breaks_text_of_defaultViolation? {t : Ty} {l : String} {v : Violation}
    (h : defaultViolation? t l = some v) : breaks v.text = v.literalBreaks := by
  unfold defaultViolation? at h
  split at h
  · cases h
    decide
  · cases h
    decide
  · split at h
    · cases h
    · obtain rfl := Option.some.inj h
      have hopen : breaks "default value `" = 0 := breaks_ofList (by decide)
      have hmiddle : breaks "` is not a valid " = 0 := breaks_ofList (by decide)
      have hclose : breaks " literal" = 0 := breaks_ofList (by decide)
      change breaks ("default value `" ++ l ++ "` is not a valid " ++ t.expectedDefault ++
        " literal") = breaks l
      simp [hopen, hmiddle, hclose, breaks_expectedDefault]

/-- **The description of a violation has the line breaks of the default that it is about**, if the
names have none. -/
theorem breaks_text_of_violation? {t : Ty} {v : Violation} (h : t.violation? = some v)
    (hn : t.hasUnbrokenNames = true) : breaks v.text = v.literalBreaks := by
  cases t with
  | primitive | predefined | reference | array | function | event => cases h
  | operator o t =>
    rw [violation?] at h
    split at h
    · cases h
      decide
    · cases h
  | withDefault t l => exact breaks_text_of_defaultViolation? h
  | objectLiteral ts ms f =>
    rw [violation?, objectViolation?] at h
    split at h
    · rename_i n hrepeated
      obtain rfl := Option.some.inj h
      obtain ⟨m, hm, rfl⟩ := List.mem_map.1 (mem_of_firstRepeated hrepeated)
      have hname : breaks m.name = 0 := eq_of_beq (List.all_eq_true.1 hn m hm)
      change breaks ("object literal declares member `" ++ m.name ++ "` more than once") = 0
      rw [Text.breaks_between (breaks_ofList (by decide)) (breaks_ofList (by decide)), hname]
    · split at h
      · cases h
      · cases h
        have hopen : breaks "allMembersReadonly is " = 0 := breaks_ofList (by decide)
        have hmiddle : breaks " but members say " = 0 := breaks_ofList (by decide)
        have hword : ∀ b, breaks (cond b "true" "false") = 0 := fun b => by cases b <;> decide
        change breaks ("allMembersReadonly is " ++ cond f "true" "false" ++ " but members say " ++
          cond (Member.allReadonly ms) "true" "false") = 0
        simp [hopen, hmiddle, hword]
  | union ts =>
    rw [violation?, unionViolation?] at h
    split at h
    · cases h
      have hopen : breaks "union needs at least 2 elements, found " = 0 := breaks_ofList (by decide)
      change breaks ("union needs at least 2 elements, found " ++ ts.length.repr) = 0
      simp [hopen]
    · obtain ⟨⟨i, j⟩, -, rfl⟩ := Option.map_eq_some_iff.1 h
      have hopen : breaks "union elements " = 0 := breaks_ofList (by decide)
      have hmiddle : breaks " and " = 0 := breaks_ofList (by decide)
      have hclose : breaks " are identical" = 0 := breaks_ofList (by decide)
      change breaks ("union elements " ++ i.repr ++ " and " ++ j.repr ++ " are identical") = 0
      simp [hopen, hmiddle, hclose]
  | enumeration p =>
    rw [violation?] at h
    split at h
    · cases h
    · cases h
      have hopen : breaks "enum must be backed by string or int32, not " = 0 :=
        breaks_ofList (by decide)
      have hname : breaks p.name = 0 := by cases p <;> decide
      change breaks ("enum must be backed by string or int32, not " ++ p.name) = 0
      simp [hopen, hname]

/-- The segments to the parts of a type show its names only. -/
theorem breaks_segment {t s : Ty} {g : Segment} (h : t.Leads g s)
    (hn : t.hasUnbrokenNames = true) : breaks g.text = 0 := by
  have hindex : ∀ {a : String}, breaks a = 0 → ∀ i : Nat, breaks (a ++ i.repr ++ "]") = 0 :=
    fun ha i => (Text.breaks_between ha (breaks_ofList (by decide)) _).trans (Text.breaks_repr i)
  cases h with
  | array | operator | withDefault | event | result => decide
  | argument => exact hindex (a := ".argumentTypes[") (breaks_ofList (by decide)) _
  | mixin => exact hindex (a := ".mixins[") (breaks_ofList (by decide)) _
  | alternative => exact hindex (a := ".elements[") (breaks_ofList (by decide)) _
  | member hm =>
    have hopen : breaks ".members." = 0 := breaks_ofList (by decide)
    have hname := eq_of_beq (List.all_eq_true.1 hn _ hm)
    change breaks (".members." ++ Member.name _) = 0
    rw [breaks_append, hopen, hname]

theorem breaks_message_under (g : Segment) (e : ShapeError) :
    breaks (e.under g).message = breaks g.text + breaks e.message := by
  simp only [ShapeError.message, ShapeError.under, Path.text, Path.trail, List.map_cons,
    String.join_cons, breaks_append]
  omega

/-- **The message of an error has the line breaks of the default that it is about**, if the names
have none. -/
theorem breaks_message {t : Ty} {e : ShapeError} (h : t.shapeError? = some e)
    (hn : t.Everywhere hasUnbrokenNames) : breaks e.message = e.violation.literalBreaks := by
  induction t using induction_children generalizing e with
  | step t ih =>
    obtain ⟨hnode, hparts⟩ := everywhere_iff.1 hn
    rw [shapeError?_eq] at h
    split at h
    · rename_i v hv
      cases h
      have hroot : breaks (" at " ++ Path.text []) = 0 := by decide
      rw [ShapeError.message, String.append_assoc, breaks_append, hroot,
        breaks_text_of_violation? hv hnode, Nat.add_zero]
    · obtain ⟨l₁, c, l₂, hc, he, -⟩ := List.findSome?_eq_some_iff.1 h
      obtain ⟨e', he', rfl⟩ := Option.map_eq_some_iff.1 he
      have hmem : c ∈ t.children := by simp [hc]
      rw [breaks_message_under, breaks_segment (leads_iff_mem_children.2 hmem) hnode, Nat.zero_add,
        ih c hmem he' (hparts c hmem)]
      rfl

/-- The line breaks that the listing shows of a definition: those of all defaults of a well-shaped
type, and those of the default that an error is about. -/
def shownBreaks (t : Ty) : Nat :=
  match t.shapeError? with
  | none => t.allDefaultBreaks
  | some e => e.violation.literalBreaks

end Ty

/-! ### The listing -/

namespace Printed

/-- How the declaration of a printed definition starts, or the comment in its place. -/
def heading (e : Printed) : String :=
  match e.result with
  | .ok _ => "type " ++ e.name ++ " = "
  | .error _ => "// type " ++ e.name ++ ": "

/-- What stands behind the heading. -/
def body (e : Printed) : String :=
  match e.result with
  | .ok s => s ++ ";"
  | .error x => x.message

theorem declaration_eq_line (e : Printed) : e.declaration = Text.line (e.heading ++ e.body) := by
  obtain ⟨n, x | s⟩ := e
  · simp only [declaration, heading, body, Text.line, String.append_assoc]
  · simp only [declaration, heading, body, Text.line, String.append_assoc]
    rfl

theorem breaks_heading {e : Printed} (h : breaks e.name = 0) : breaks e.heading = 0 := by
  have htype : breaks "type " = 0 := breaks_ofList (by decide)
  have hequals : breaks " = " = 0 := breaks_ofList (by decide)
  have hcomment : breaks "// type " = 0 := breaks_ofList (by decide)
  have hcolon : breaks ": " = 0 := breaks_ofList (by decide)
  obtain ⟨n, x | s⟩ := e
  · simp [heading, hcomment, hcolon, h]
  · simp [heading, htype, hequals, h]

end Printed

/-- What the listing shows of a type, a text or a failure, has the breaks that `Ty.shownBreaks`
counts. -/
theorem Printer.breaks_body {n : String} {t : Ty} (h : t.Everywhere Ty.hasUnbrokenNames) :
    breaks (Printed.body ⟨n, ({} : Printer).print t⟩) = t.shownBreaks := by
  cases he : t.shapeError? with
  | none =>
    obtain ⟨s, hs⟩ := print_of_wellShaped he
    have htext : s = t.phrase.text :=
      Ty.eq_text_of_annotationText t (print_eq_ok_iff.1 (hs {})).2
    have hsemicolon : breaks ";" = 0 := breaks_ofList (by decide)
    rw [Printed.body, hs, breaks_append, htext, Ty.breaks_text_phrase h, hsemicolon, Nat.add_zero,
      Ty.shownBreaks, he]
  | some e =>
    have hopen : breaks "Invalid shape: " = 0 := breaks_ofList (by decide)
    rw [print_of_shapeError he, Ty.shownBreaks, he]
    change breaks ("Invalid shape: " ++ e.message) = e.violation.literalBreaks
    rw [breaks_append, Ty.breaks_message he h, hopen, Nat.zero_add]

namespace Container

variable {c : Container}

theorem declarations_eq (c : Container) :
    c.declarations =
      String.join (((c.print {}).map fun e => e.heading ++ e.body).map Text.line) := by
  rw [declarations, List.map_map]
  congr 1
  exact List.map_congr_left fun e _ => e.declaration_eq_line

/-- The breaks that the listing shows of a definition, its own line apart. -/
theorem breaks_heading_body {e : String × Ty} (hn : breaks e.1 = 0)
    (ht : e.2.Everywhere Ty.hasUnbrokenNames) :
    breaks (Printed.heading ⟨e.1, ({} : Printer).print e.2⟩ ++
      Printed.body ⟨e.1, ({} : Printer).print e.2⟩) = e.2.shownBreaks := by
  have hheading : breaks (Printed.heading ⟨e.1, ({} : Printer).print e.2⟩) = 0 :=
    Printed.breaks_heading hn
  rw [breaks_append, hheading, Printer.breaks_body ht, Nat.zero_add]

/-- **A definition takes one line of the listing and as many more as the defaults that are shown of
it have line breaks.** -/
theorem breaks_declarations (hn : ∀ n ∈ c.names, breaks n = 0)
    (ht : ∀ e ∈ c.entries, e.2.Everywhere Ty.hasUnbrokenNames) :
    breaks c.declarations = c.size + (c.entries.map fun e => e.2.shownBreaks).sum := by
  have hbreaks : ((c.print {}).map fun e => e.heading ++ e.body).map breaks =
      c.entries.map fun e => e.2.shownBreaks := by
    rw [print, List.map_map, List.map_map]
    exact List.map_congr_left fun e he =>
      breaks_heading_body (hn e.1 (List.mem_map_of_mem he)) (ht e he)
  rw [declarations_eq, Text.breaks_join_map_line, hbreaks, List.length_map, print, List.length_map,
    size]

/-- **The listing has one line for each definition exactly if no default that it shows has a line
break.** Then the lines are those of the definitions in order, and each starts with `type`, the name
and an equals sign where the definition prints, and as a comment where it does not. Otherwise there
are more lines than definitions (`breaks_declarations`). -/
theorem exists_isLines_declarations_iff (hn : ∀ n ∈ c.names, breaks n = 0)
    (ht : ∀ e ∈ c.entries, e.2.Everywhere Ty.hasUnbrokenNames) :
    (∃ ls, Text.IsLines c.declarations ls ∧ ls.length = c.size ∧
      List.Forall₂ (fun e l => ∃ r, l = e.heading ++ r) (c.print {}) ls) ↔
      ∀ e ∈ c.entries, e.2.shownBreaks = 0 := by
  constructor
  · rintro ⟨ls, hls, hlength, -⟩
    have hbreaks := hls.breaks_eq
    rw [breaks_declarations hn ht, hlength] at hbreaks
    have hsum : (c.entries.map fun e => e.2.shownBreaks).sum = 0 := by omega
    rwa [List.sum_eq_zero_iff_forall_eq_nat, List.forall_mem_map] at hsum
  · intro h
    refine ⟨(c.print {}).map fun e => e.heading ++ e.body, ⟨declarations_eq c, ?_⟩, ?_, ?_⟩
    · rw [print, List.map_map]
      refine List.forall_mem_map.2 fun e he => ?_
      exact (breaks_heading_body (hn e.1 (List.mem_map_of_mem he)) (ht e he)).trans (h e he)
    · rw [List.length_map, print, List.length_map, size]
    · rw [List.forall₂_map_right_iff, List.forall₂_same]
      exact fun e _ => ⟨e.body, rfl⟩

/-- A listing of a definition that prints and of one that does not, both with a default. -/
theorem exists_isLines_declarations_of_label :
    let c := Container.ofList [("Label", .withDefault (.primitive .string) "'a'"),
      ("Size", .withDefault (.primitive .int32) "'a'")]
    (∀ n ∈ c.names, breaks n = 0) ∧ (∀ e ∈ c.entries, e.2.Everywhere Ty.hasUnbrokenNames) ∧
      ∃ ls, Text.IsLines c.declarations ls ∧ ls.length = c.size ∧
        List.Forall₂ (fun e l => ∃ r, l = e.heading ++ r) (c.print {}) ls := by
  intro c
  have hn : ∀ n ∈ c.names, breaks n = 0 := by decide +kernel
  have ht : ∀ e ∈ c.entries, e.2.Everywhere Ty.hasUnbrokenNames := by decide +kernel
  exact ⟨hn, ht, (exists_isLines_declarations_iff hn ht).2 (by decide +kernel)⟩

/-- A default that does not fit is shown in a comment, but the comment ends where the default has a
line break: the rest is a line of the listing that looks like a declaration. -/
theorem isLines_declarations_of_broken_default :
    let c := Container.ofList [("A", .withDefault (.primitive .int32) "1\ntype B = string;")]
    (∀ n ∈ c.names, breaks n = 0) ∧ (∀ e ∈ c.entries, e.2.Everywhere Ty.hasUnbrokenNames) ∧
      Text.IsLines c.declarations ["// type A: Invalid shape: default value `1",
        "type B = string;` is not a valid int32 literal at $"] ∧
      ¬ ∃ ls, Text.IsLines c.declarations ls ∧ ls.length = c.size ∧
        List.Forall₂ (fun e l => ∃ r, l = e.heading ++ r) (c.print {}) ls := by
  intro c
  have hlines : Text.IsLines c.declarations ["// type A: Invalid shape: default value `1",
      "type B = string;` is not a valid int32 literal at $"] :=
    ⟨by decide +kernel, by decide +kernel⟩
  refine ⟨by decide +kernel, by decide +kernel, hlines, ?_⟩
  rintro ⟨ls, hls, hlength, -⟩
  have htwo : ls.length = 2 := hls.breaks_eq.symm.trans hlines.breaks_eq
  have hone : ls.length = 1 := hlength
  omega

end Container

end NativeTypes
