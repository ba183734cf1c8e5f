import NativeTypes.Command.Run
import NativeTypes.Proofs.Checking
import NativeTypes.Proofs.Printing

/-! # The commands agree

Printing, printing all or nothing, and checking the shape find the same definitions at fault. Each
goes over the definitions in a loop of its own, and what the loops hold is compared after every
definition.

* `PrintsLines`: how definitions are printed. Each writes one line, to the output or to the errors,
  and those that write to the errors are counted. This is what the loop of printing does, wherever
  it starts (`Container.exists_printsLines_foldl`).
* `Collected.Matches`: what printing has written is what printing all or nothing has collected.
* `Outcome.Reports`: what printing has found at fault is what checking has.
* `Container.commands_agree`: the counts, the streams and the exit codes of the three commands. -/

namespace NativeTypes

/-! ### Lines -/

/-- **Definitions are printed one after the other**: what is written to the output, what to the
errors, and how many of them fail. -/
inductive PrintsLines (p : Printer) : List (String × Ty) → String → String → Nat → Prop
  | nil : PrintsLines p [] "" "" 0
  | text {n s out err : String} {t : Ty} {es : List (String × Ty)} {k : Nat}
      (h : p.print t = .ok s) (hes : PrintsLines p es out err k) :
      PrintsLines p ((n, t) :: es) (n ++ ": " ++ s ++ "\n" ++ out) err k
  | shape {n out err : String} {t : Ty} {x : ShapeError} {es : List (String × Ty)} {k : Nat}
      (h : p.print t = .error (.shape x)) (hes : PrintsLines p es out err k) :
      PrintsLines p ((n, t) :: es) out
        ("[SHAPE] at " ++ n ++ x.path.trail ++ ": Invalid shape: " ++ x.message ++ "\n" ++ err)
        (k + 1)
  | unwritable {n out err : String} {t : Ty} {x : Unwritable} {es : List (String × Ty)} {k : Nat}
      (h : p.print t = .error (.unwritable x)) (hes : PrintsLines p es out err k) :
      PrintsLines p ((n, t) :: es) out
        ("[UNRENDERABLE] at " ++ n ++ x.path.trail ++ ": " ++ x.message ++ "\n" ++ err) (k + 1)

/-- Whether a printer fails on a definition. -/
def Printer.fails (p : Printer) (e : String × Ty) : Bool :=
  !(p.print e.2).isOk

theorem Printer.fails_of_ok {p : Printer} {n s : String} {t : Ty} (h : p.print t = .ok s) :
    p.fails (n, t) = false := by
  rw [fails, h]
  rfl

theorem Printer.fails_of_error {p : Printer} {n : String} {t : Ty} {e : PrintError}
    (h : p.print t = .error e) : p.fails (n, t) = true := by
  rw [fails, h]
  rfl

/-- A printer that checks fails on the ill-shaped definitions. -/
theorem Printer.fails_eq (e : String × Ty) : Printer.fails {} e = e.2.shapeError?.isSome := by
  cases h : e.2.shapeError? with
  | none =>
    obtain ⟨s, hs⟩ := print_of_wellShaped h
    exact fails_of_ok (hs {})
  | some x => exact fails_of_error (print_of_shapeError h)

/-- As many definitions fail as lines are written to the errors. -/
theorem PrintsLines.countP_fails {p : Printer} {es : List (String × Ty)} {out err : String}
    {k : Nat} (h : PrintsLines p es out err k) : es.countP p.fails = k := by
  induction h with
  | nil => rfl
  | text h _ ih => rw [List.countP_cons_of_neg (by simp [Printer.fails_of_ok h]), ih]
  | shape h _ ih | unwritable h _ ih =>
    rw [List.countP_cons_of_pos (Printer.fails_of_error h), ih]

/-- The line of an ill-shaped definition that was not printed. -/
theorem line_shape (n : String) (x : ShapeError) :
    Text.line (Report.Entry.ofPrintError n (.shape x)).text =
      "[SHAPE] at " ++ n ++ x.path.trail ++ ": Invalid shape: " ++ x.message ++ "\n" := by
  have hlabel : "[SHAPE] at " = "[" ++ "SHAPE" ++ "] at " := rfl
  have hmessage : ": Invalid shape: " = ": " ++ "Invalid shape: " := rfl
  rw [hlabel, hmessage]
  simp only [Text.line, Report.Entry.text, Report.Entry.ofPrintError, PrintError.category,
    PrintError.path, PrintError.message, Category.label, Location.text, String.append_assoc]

/-- The line of a definition without an annotation. -/
theorem line_unwritable (n : String) (x : Unwritable) :
    Text.line (Report.Entry.ofPrintError n (.unwritable x)).text =
      "[UNRENDERABLE] at " ++ n ++ x.path.trail ++ ": " ++ x.message ++ "\n" := by
  have hlabel : "[UNRENDERABLE] at " = "[" ++ "UNRENDERABLE" ++ "] at " := rfl
  rw [hlabel]
  simp only [Text.line, Report.Entry.text, Report.Entry.ofPrintError, PrintError.category,
    PrintError.path, PrintError.message, Category.label, Location.text, String.append_assoc]

/-- A definition that fails writes its entry of a report to the errors. -/
theorem PrintsLines.failure {p : Printer} {n out err : String} {t : Ty} {e : PrintError}
    {es : List (String × Ty)} {k : Nat} (h : p.print t = .error e)
    (hes : PrintsLines p es out err k) : PrintsLines p ((n, t) :: es) out
      (Text.line (Report.Entry.ofPrintError n e).text ++ err) (k + 1) := by
  cases e with
  | shape x =>
    rw [line_shape]
    exact .shape h hes
  | unwritable x =>
    rw [line_unwritable]
    exact .unwritable h hes

/-! ### One definition after the other -/

namespace Outcome

theorem next_of_ok (o : Outcome) (n s : String) :
    o.next ⟨n, .ok s⟩ = ⟨o.out ++ (n ++ ": " ++ s ++ "\n"), o.err, o.total + 1, o.failed⟩ :=
  rfl

theorem next_of_error (o : Outcome) (n : String) (e : PrintError) :
    o.next ⟨n, .error e⟩ = ⟨o.out, o.err ++ Text.line (Report.Entry.ofPrintError n e).text,
      o.total + 1, o.failed + 1⟩ :=
  rfl

end Outcome

/-- **The loop of printing** writes one line for each definition after what is written already, and
goes on counting. -/
theorem Container.exists_printsLines_foldl (p : Printer) (es : List (String × Ty)) (o : Outcome) :
    ∃ out err k, PrintsLines p es out err k ∧
      (es.map fun e => (⟨e.1, p.print e.2⟩ : Printed)).foldl Outcome.next o =
        ⟨o.out ++ out, o.err ++ err, o.total + es.length, o.failed + k⟩ := by
  -- the start is free: after its first definition, the loop goes on from somewhere else
  induction es generalizing o with
  | nil => exact ⟨"", "", 0, .nil, by simp⟩
  | cons e es ih =>
    obtain ⟨n, t⟩ := e
    obtain ⟨out, err, k, hes, hrun⟩ := ih (o.next ⟨n, p.print t⟩)
    rw [List.map_cons, List.foldl_cons, hrun, List.length_cons]
    cases h : p.print t with
    | ok s =>
      refine ⟨_, _, _, .text h hes, ?_⟩
      simp only [Outcome.next_of_ok, String.append_assoc, Nat.add_assoc, Nat.add_comm 1]
    | error x =>
      refine ⟨_, _, _, .failure h hes, ?_⟩
      simp only [Outcome.next_of_error, String.append_assoc, Nat.add_assoc, Nat.add_comm 1]

section Steps

variable {o : Outcome} {c : Collected} {l : ShapeErrors}

/-! ### Two ways of printing -/

/-- **What the two ways of printing hold** after the same definitions: what one has written and
counted is what the other has collected. -/
structure Collected.Matches (c : Collected) (o : Outcome) : Prop where
  out_eq : o.out = String.join (c.texts.map printedLine)
  err_eq : o.err = String.join (c.failures.map fun e => Text.line e.text)
  total_eq : o.total = c.texts.length + c.failures.length
  failed_eq : o.failed = c.failures.length

namespace Collected.Matches

theorem start : Matches {} .start :=
  ⟨rfl, rfl, rfl, rfl⟩

/-- One more definition is written as it is collected. -/
theorem next (h : c.Matches o) (e : Printed) : (c.next e).Matches (o.next e) := by
  obtain ⟨n, r⟩ := e
  cases r with
  | ok s =>
    refine ⟨?_, h.err_eq, ?_, h.failed_eq⟩
    · simp [Collected.next, Outcome.next, h.out_eq]
    · simp [Collected.next, Outcome.next, h.total_eq, Nat.add_right_comm]
  | error x =>
    refine ⟨h.out_eq, ?_, ?_, ?_⟩
    · simp [Collected.next, Outcome.next, Report.add, h.err_eq]
    · simp [Collected.next, Outcome.next, Report.add, h.total_eq, Nat.add_assoc]
    · simp [Collected.next, Outcome.next, Report.add, h.failed_eq]

theorem foldl (h : c.Matches o) (l : List Printed) :
    (l.foldl Collected.next c).Matches (l.foldl Outcome.next o) := by
  induction l generalizing c o with
  | nil => exact h
  | cons e l ih => exact ih (h.next e)

theorem eq_of_failures_eq_nil (h : c.Matches o) (hc : c.failures = []) :
    o = ⟨String.join (c.texts.map printedLine), "", c.texts.length, 0⟩ := by
  obtain ⟨out, err, total, failed⟩ := o
  obtain ⟨rfl, rfl, rfl, rfl⟩ := h
  rw [hc]
  rfl

end Collected.Matches

/-! ### Printing and checking -/

/-- **What printing and checking hold** after the same definitions: a line is written to the errors
for each error that is found. -/
structure Outcome.Reports (o : Outcome) (l : ShapeErrors) : Prop where
  err_eq : o.err = String.join (l.map fun e =>
    "[SHAPE] at " ++ e.1 ++ e.2.path.trail ++ ": Invalid shape: " ++ e.2.message ++ "\n")
  failed_eq : o.failed = l.length

namespace Outcome.Reports

theorem start : Outcome.start.Reports [] :=
  ⟨rfl, rfl⟩

/-- A printer that checks reports what checking finds of one more definition. -/
theorem next (h : o.Reports l) (e : String × Ty) :
    (o.next ⟨e.1, ({} : Printer).print e.2⟩).Reports (l.next e) := by
  obtain ⟨n, t⟩ := e
  cases ht : t.shapeError? with
  | none =>
    obtain ⟨s, hs⟩ := Printer.print_of_wellShaped ht
    simp only [ShapeErrors.next, ht, hs, Outcome.next_of_ok]
    exact ⟨h.err_eq, h.failed_eq⟩
  | some x =>
    simp only [ShapeErrors.next, ShapeErrors.add, ht, Printer.print_of_shapeError ht,
      Outcome.next_of_error, line_shape]
    exact ⟨by simp [h.err_eq], by simp [h.failed_eq]⟩

theorem foldl (h : o.Reports l) (es : List (String × Ty)) :
    ((es.map fun e => (⟨e.1, ({} : Printer).print e.2⟩ : Printed)).foldl Outcome.next o).Reports
      (es.foldl ShapeErrors.next l) := by
  induction es generalizing o l with
  | nil => exact h
  | cons e es ih => exact ih (h.next e)

end Outcome.Reports

end Steps

namespace Container

/-- What printing a container does, and printing all of it or nothing. -/
structure PrintsAlike (c : Container) (p : Printer) : Prop where
  total_eq : (c.runPrint p).total = c.size
  failed_eq : (c.runPrint p).failed = c.entries.countP p.fails
  failed_le : (c.runPrint p).failed ≤ (c.runPrint p).total
  /-- Each definition writes one line, to one of the streams. -/
  lines : PrintsLines p c.entries (c.runPrint p).out (c.runPrint p).err (c.runPrint p).failed
  total_all : (c.runPrintAll p).total = (c.runPrint p).total
  failed_all : (c.runPrintAll p).failed = (c.runPrint p).failed
  /-- If nothing fails, all is written. -/
  all : (c.runPrint p).failed = 0 →
    (c.runPrintAll p).out = (c.runPrint p).out ∧ (c.runPrintAll p).err = ""
  /-- If anything fails, nothing is written to the output. -/
  nothing : (c.runPrint p).failed ≠ 0 → (c.runPrintAll p).out = ""

/-- What checking a container does, beside printing it with a printer that checks. -/
structure ChecksAlike (c : Container) (p : Printer) : Prop where
  total_eq : c.runValidate.total = (c.runPrint p).total
  failed_eq : c.runValidate.failed = (c.runPrint p).failed
  /-- Both write a line on each of the definitions on which the printer fails, in order. -/
  lines : ∃ es : ShapeErrors, List.Forall₂ IsErrorOf (c.entries.filter p.fails) es ∧
    c.runValidate.err = String.join (es.map fun e =>
      e.1 ++ ": [" ++ e.2.violation.code ++ "] " ++ e.2.message ++ "\n") ∧
    (c.runPrint p).err = String.join (es.map fun e =>
      "[SHAPE] at " ++ e.1 ++ e.2.path.trail ++ ": Invalid shape: " ++ e.2.message ++ "\n")
  /-- What is counted as well-shaped and what is not make up the whole. -/
  valid : ∃ k, k + c.runValidate.failed = c.runValidate.total ∧
    c.runValidate.out = k.repr ++ " of " ++ c.runValidate.total.repr ++ " types valid" ++ "\n"

variable (c : Container) (p : Printer)

/-- **Printing a container** writes one line for each definition, and counts them. -/
theorem exists_printsLines : ∃ out err k, PrintsLines p c.entries out err k ∧
    c.runPrint p = ⟨out, err, c.size, k⟩ := by
  obtain ⟨out, err, k, hlines, hrun⟩ := exists_printsLines_foldl p c.entries .start
  refine ⟨out, err, k, hlines, ?_⟩
  rw [runPrint, print, hrun, size]
  simp [Outcome.start]

theorem matches_runPrint :
    ((c.print p).foldl Collected.next {}).Matches (c.runPrint p) :=
  Collected.Matches.start.foldl (c.print p)

/-- **If nothing fails**, printing all does what printing does, which writes no error. -/
theorem runPrintAll_of_failed_eq_zero (h : (c.runPrint p).failed = 0) :
    c.runPrintAll p = c.runPrint p ∧ (c.runPrint p).err = "" := by
  have hm := matches_runPrint c p
  have hnil := List.length_eq_zero_iff.1 (hm.failed_eq.symm.trans h)
  rw [runPrintAll, printAll?, hnil, hm.eq_of_failures_eq_nil hnil]
  exact ⟨rfl, rfl⟩

/-- **If anything fails**, printing all writes the summary of what fails, and counts the same. -/
theorem runPrintAll_of_failed_ne_zero (h : (c.runPrint p).failed ≠ 0) :
    c.runPrintAll p = ⟨"", Text.line ((c.print p).foldl Collected.next {}).failures.summary,
      c.size, (c.runPrint p).failed⟩ := by
  have hm := matches_runPrint c p
  have hne : ((c.print p).foldl Collected.next {}).failures.isEmpty = false := by
    rw [List.isEmpty_eq_false_iff]
    exact fun hnil => h (hm.failed_eq.trans (List.length_eq_zero_iff.2 hnil))
  rw [hm.failed_eq, runPrintAll, printAll?, hne]
  rfl

theorem printsAlike : PrintsAlike c p := by
  obtain ⟨out, err, k, hlines, hrun⟩ := exists_printsLines c p
  have htotal : (c.runPrint p).total = c.size := congrArg Outcome.total hrun
  have hfailed : (c.runPrint p).failed = c.entries.countP p.fails :=
    (congrArg Outcome.failed hrun).trans hlines.countP_fails.symm
  refine
    { total_eq := htotal
      failed_eq := hfailed
      failed_le := by
        rw [hfailed, htotal]
        exact List.countP_le_length
      lines := by rwa [hrun]
      total_all := ?_
      failed_all := ?_
      all := fun h => ?_
      nothing := fun h => by rw [runPrintAll_of_failed_ne_zero c p h] }
  · by_cases h : (c.runPrint p).failed = 0
    · rw [(runPrintAll_of_failed_eq_zero c p h).1]
    · rw [runPrintAll_of_failed_ne_zero c p h, htotal]
  · by_cases h : (c.runPrint p).failed = 0
    · rw [(runPrintAll_of_failed_eq_zero c p h).1]
    · rw [runPrintAll_of_failed_ne_zero c p h]
  · obtain ⟨hall, herr⟩ := runPrintAll_of_failed_eq_zero c p h
    rw [hall]
    exact ⟨rfl, herr⟩

theorem runValidate_eq : c.runValidate = .ofShapeErrors c.size c.shapeErrors := by
  rw [runValidate, check_eq]
  by_cases h : c.shapeErrors = []
  · rw [if_pos h, h]
  · rw [if_neg h]

theorem reports_runPrint : (c.runPrint {}).Reports c.shapeErrors := by
  have h := Outcome.Reports.start.foldl c.entries
  rwa [ShapeErrors.foldl_next] at h

theorem checksAlike {p : Printer} (h : p.checksShape = true) : ChecksAlike c p := by
  obtain ⟨_⟩ := p
  cases h
  have hprint := printsAlike c {}
  have hreports := reports_runPrint c
  have hfails : c.entries.filter (Printer.fails {}) =
      c.entries.filter fun e => e.2.shapeError?.isSome :=
    List.filter_congr fun e _ => Printer.fails_eq e
  refine
    { total_eq := by rw [runValidate_eq, hprint.total_eq, Outcome.ofShapeErrors]
      failed_eq := by rw [runValidate_eq, hreports.failed_eq, Outcome.ofShapeErrors]
      lines := ⟨c.shapeErrors, ?_, ?_, hreports.err_eq⟩
      valid := ⟨c.size - c.shapeErrors.length, ?_, ?_⟩ }
  · rw [hfails]
    exact c.forall₂_shapeErrors
  · rw [runValidate_eq]
    rfl
  · have hle := hprint.failed_le
    rw [hprint.total_eq, hreports.failed_eq] at hle
    rw [runValidate_eq]
    exact Nat.sub_add_cancel hle
  · rw [runValidate_eq]
    rfl

end Container

/-! ### Exit codes -/

namespace Command

variable (read : String → Except ReadFailure String)

/-- The code with which a command ends where files are read by a function. -/
def exitCode (c : Command) : Nat :=
  (Id.run (c.run fun path => pure (read path))).code

/-- The printer of a command. -/
def printer (c : Command) : Except Failure Printer :=
  match c.config? with
  | none => .ok {}
  | some path => printerOf path (read path)

/-- A command ends with a failure, or with what it finds at fault in its container. -/
theorem exitCode_eq (c : Command) :
    c.exitCode read =
      match c.printer read with
      | .error _ => 1
      | .ok p =>
        match containerOf c.input (read c.input) with
        | .error _ => 1
        | .ok x => if (c.apply x p).failed = 0 then 0 else 1 := by
  have hrun : c.exitCode read = (match c.printer read with
      | .error f => Ending.ofFailure f
      | .ok p =>
        match containerOf c.input (read c.input) with
        | .error f => Ending.ofFailure f
        | .ok x => Ending.ofOutcome (c.apply x p)).code := by
    unfold exitCode run printer
    cases c.config? <;> rfl
  rw [hrun]
  cases c.printer read with
  | error f => rfl
  | ok p =>
    cases containerOf c.input (read c.input) with
    | error f => rfl
    | ok x => simp [Ending.ofOutcome, Outcome.isSuccess]

/-- Commands that find as much at fault in every container end with the same code. -/
theorem exitCode_congr {c d : Command} (hprinter : c.printer read = d.printer read)
    (hinput : c.input = d.input)
    (h : ∀ x p, d.printer read = .ok p → (c.apply x p).failed = (d.apply x p).failed) :
    c.exitCode read = d.exitCode read := by
  rw [exitCode_eq, exitCode_eq, hprinter, hinput]
  cases hp : d.printer read with
  | error f => rfl
  | ok p =>
    cases containerOf d.input (read d.input) with
    | error f => rfl
    | ok x => simp only [h x p hp]

end Command

/-- **The commands agree**: the two ways of printing on what they count and write, with any printer,
and on the exit code; checking and printing, with a printer that checks, on what is at fault, and
without settings on the exit code. -/
theorem Container.commands_agree :
    (∀ (c : Container) (p : Printer), c.PrintsAlike p) ∧
    (∀ (c : Container) (p : Printer), p.checksShape = true → c.ChecksAlike p) ∧
    ∀ (read : String → Except ReadFailure String) (input : String),
      (∀ config : Option String, (Command.print input config true).exitCode read =
        (Command.print input config false).exitCode read) ∧
      (Command.validate input).exitCode read =
        (Command.print input none false).exitCode read := by
  refine ⟨printsAlike, fun c p => checksAlike c, fun read input => ⟨fun config => ?_, ?_⟩⟩
  · exact Command.exitCode_congr read rfl rfl fun x p _ => (printsAlike x p).failed_all
  · refine Command.exitCode_congr read rfl rfl fun x p hp => ?_
    cases hp
    exact (checksAlike x rfl).failed_eq

/-- Two of three definitions are ill-shaped. -/
theorem Container.commands_agree_mixed :
    let c := ofList [("A", .primitive .string), ("B", .union []), ("A", .primitive .void),
      ("C", .enumeration .boolean)]
    ({} : Printer).checksShape = true ∧ c.ChecksAlike {} ∧
      c.runValidate.total = 3 ∧ c.runValidate.failed = 2 ∧
      c.runValidate.err =
        "B: [EmptyOrSingletonUnion] union needs at least 2 elements, found 0 at $\n" ++
        "C: [InvalidEnumElement] enum must be backed by string or int32, not boolean at $\n" ∧
      (c.runPrint {}).out = "A: void\n" ∧ (c.runPrintAll {}).out = "" :=
  ⟨rfl, commands_agree.2.1 _ {} rfl, by decide +kernel⟩

end NativeTypes
