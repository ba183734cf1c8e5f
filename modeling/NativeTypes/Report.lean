import NativeTypes.Container
import NativeTypes.Printer

/-! # Reports of failures

Failures are gathered rather than stopping at the first. The text of a list of errors of shape
(`shapeErrorsText`) numbers them. A `Report` is a list of entries, each of one category and with a
location; its summary groups the entries by category, counts every group, and shows the first ten
of each in the order in which they were added. The groups are made as the entries are met, and kept
in the order of the categories (`Report.groups`). -/

namespace NativeTypes

/-- The text of a batch of errors of shape, each with the name of its definition. -/
def shapeErrorsText : List (String × ShapeError) → String
  | [] => "No shape errors"
  | [(n, e)] => "Shape error in " ++ n ++ ": " ++ e.message
  | l =>
    l.length.repr ++ " shape errors:\n" ++
      String.join (l.zipIdx.map fun ((n, e), i) =>
        "  " ++ (i + 1).repr ++ ". " ++ n ++ ": " ++ e.message ++ "\n")

/-- Where something failed: in a definition, at a path, in both or in neither. -/
structure Location where
  name : Option String := none
  path : Option Path := none

/-- The text of a location; the name of a definition stands for the root of its type. -/
def Location.text : Location → String
  | ⟨some n, some p⟩ => n ++ p.trail
  | ⟨some n, none⟩ => n
  | ⟨none, some p⟩ => p.text
  | ⟨none, none⟩ => "<unknown location>"

/-- The two kinds of failure: a broken rule of shape, and a type without an annotation. -/
inductive Category where
  | shape
  | unwritable
deriving DecidableEq

namespace Category

/-- The label of a category. -/
def label : Category → String
  | shape => "SHAPE"
  | unwritable => "UNRENDERABLE"

/-- The categories in the order of a summary. -/
def all : List Category :=
  [shape, unwritable]

/-- The place of a category in the order of a summary. -/
def rank : Category → Nat
  | shape => 0
  | unwritable => 1

end Category

/-- The category of a failure to print. -/
def PrintError.category : PrintError → Category
  | shape _ => .shape
  | unwritable _ => .unwritable

namespace Report

/-- One failure of a report. -/
structure Entry where
  category : Category
  location : Location
  message : String

namespace Entry

/-- The text of an entry. -/
def text (e : Entry) : String :=
  "[" ++ e.category.label ++ "] at " ++ e.location.text ++ ": " ++ e.message

/-- The entry of a definition that was not printed. -/
def ofPrintError (name : String) (e : PrintError) : Entry :=
  ⟨e.category, ⟨some name, some e.path⟩, e.message⟩

end Entry

/-- The greatest number of entries that a summary shows of a category. -/
def shown : Nat := 10

end Report

/-- Failures in the order in which they were added. -/
abbrev Report := List Report.Entry

namespace Report

/-- Adds an entry. -/
def add (r : Report) (e : Entry) : Report :=
  r ++ [e]

/-- The entries of one category, in order. -/
def ofCategory (r : Report) (c : Category) : Report :=
  r.filter fun e => e.category = c

/-- Entries by category. -/
abbrev Groups := List (Category × Report)

/-- Adds an entry to the group of its category. The first entry of a category makes a group, in its
place among those that are there. -/
def Groups.add (e : Entry) : Groups → Groups
  | [] => [(e.category, [e])]
  | (c, es) :: gs =>
    if c = e.category then (c, Report.add es e) :: gs
    else if e.category.rank < c.rank then (e.category, [e]) :: (c, es) :: gs
    else (c, es) :: Groups.add e gs

/-- The groups of a report. -/
def groups (r : Report) : Groups :=
  r.foldl (fun gs e => gs.add e) []

/-- The lines of a summary about the entries of one category. -/
def sectionLines (c : Category) (r : Report) : List String :=
  ["## " ++ c.label ++ " (" ++ r.length.repr ++ " errors):"] ++
    (r.take shown).map (fun e => "  - " ++ e.text) ++
    (if r.length > shown then ["  ... and " ++ (r.length - shown).repr ++ " more"] else []) ++
    [""]

/-- **The summary of a report.** -/
def summary (r : Report) : String :=
  if r.isEmpty then
    "No errors"
  else
    String.intercalate "\n" <|
      ["Found " ++ r.length.repr ++ " error(s):", ""] ++
        r.groups.flatMap fun g => sectionLines g.1 g.2

end Report

/-- What stopped the printing of a whole container: how many failures there were, and their
summary. -/
structure BatchError where
  count : Nat
  summary : String

namespace BatchError

/-- The failure that a report amounts to. -/
def ofReport (r : Report) : BatchError :=
  ⟨r.length, r.summary⟩

/-- The message of a batch of failures. -/
def message (e : BatchError) : String :=
  "Batch errors (" ++ e.count.repr ++ " total):\n" ++ e.summary

end BatchError

end NativeTypes
