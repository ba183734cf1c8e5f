import NativeTypes.Listing

/-! # Outcomes of the commands

What each command writes about a container, to its output and to its errors, and how many
definitions it counted and found at fault. -/

namespace NativeTypes

/-- What a command wrote, and what it counted. -/
structure Outcome where
  out : String
  err : String
  total : Nat
  failed : Nat
deriving DecidableEq

namespace Outcome

/-- Whether nothing was at fault. -/
def isSuccess (o : Outcome) : Bool :=
  o.failed == 0

/-- Nothing is written and nothing counted yet. -/
def start : Outcome :=
  ⟨"", "", 0, 0⟩

end Outcome

/-- A text as a line. -/
def Text.line (s : String) : String :=
  s ++ "\n"

/-- The line of a printed definition. -/
def printedLine (e : String × String) : String :=
  Text.line (e.1 ++ ": " ++ e.2)

/-- The line of an ill-shaped definition. -/
def shapeErrorLine (e : String × ShapeError) : String :=
  Text.line (e.1 ++ ": [" ++ e.2.violation.code ++ "] " ++ e.2.message)

/-- Goes on from the outcome of printing one definition: it is counted and written to the output,
or to the errors if it failed. -/
def Outcome.next (o : Outcome) (e : Printed) : Outcome :=
  let o := { o with total := o.total + 1 }
  match e.result with
  | .ok s => { o with out := o.out ++ printedLine (e.name, s) }
  | .error x =>
    { o with
      failed := o.failed + 1
      err := o.err ++ Text.line (Report.Entry.ofPrintError e.name x).text }

/-- The outcome of checking a number of definitions, from the errors that were found: a line on each
error, and how many definitions are without one. -/
def Outcome.ofShapeErrors (size : Nat) (l : ShapeErrors) : Outcome where
  out := Text.line ((size - l.length).repr ++ " of " ++ size.repr ++ " types valid")
  err := String.join (l.map shapeErrorLine)
  total := size
  failed := l.length

namespace Container

/-- **Prints one definition after the other**: texts to the output, failures to the errors. -/
def runPrint (c : Container) (p : Printer) : Outcome :=
  (c.print p).foldl Outcome.next .start

/-- **Prints every definition, or none**: if any fails, only the summary of all failures is
written. -/
def runPrintAll (c : Container) (p : Printer) : Outcome :=
  match c.printAll? p with
  | .ok texts => ⟨String.join (texts.map printedLine), "", texts.length, 0⟩
  | .error e => ⟨"", Text.line e.summary, c.size, e.count⟩

/-- **Checks the shape of every definition.** -/
def runValidate (c : Container) : Outcome :=
  match c.check with
  | .ok () => .ofShapeErrors c.size []
  | .error l => .ofShapeErrors c.size l

end Container

end NativeTypes
