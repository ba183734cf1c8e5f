import NativeTypes.Report

/-! # Printing a container

Every definition of a container is printed on its own, and one that fails stops no other.
`Container.print` gives the outcome of each, `Container.printAll?` all of the texts or a batch of
all of the failures, and `Container.declarations` a listing with one declaration for each, where a
failure becomes a comment. -/

namespace NativeTypes

/-- The outcome of printing one definition. -/
structure Printed where
  name : String
  result : Except PrintError String

namespace Printed

/-- The declaration of a printed definition, or the comment in its place. -/
def declaration (e : Printed) : String :=
  match e.result with
  | .ok s => "type " ++ e.name ++ " = " ++ s ++ ";\n"
  | .error x => "// type " ++ e.name ++ ": " ++ x.message ++ "\n"

end Printed

/-- What has been collected of the outcomes so far: the texts with their names, and the failures. -/
structure Collected where
  texts : List (String × String) := []
  failures : Report := []

/-- Goes on from the outcome of printing one definition. -/
def Collected.next (c : Collected) (e : Printed) : Collected :=
  match e.result with
  | .ok s => { c with texts := c.texts ++ [(e.name, s)] }
  | .error x => { c with failures := c.failures.add (.ofPrintError e.name x) }

namespace Container

/-- **The outcomes of printing the definitions**, in order. -/
def print (c : Container) (p : Printer) : List Printed :=
  c.entries.map fun e => ⟨e.1, p.print e.2⟩

/-- All names with their texts, or the batch of all failures. -/
def printAll? (c : Container) (p : Printer) : Except BatchError (List (String × String)) :=
  let collected := (c.print p).foldl Collected.next {}
  if collected.failures.isEmpty then .ok collected.texts else .error (.ofReport collected.failures)

/-- The listing of all definitions. -/
def declarations (c : Container) : String :=
  String.join ((c.print {}).map Printed.declaration)

end Container

end NativeTypes
