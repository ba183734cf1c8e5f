import NativeTypes.Command.Arguments
import NativeTypes.Command.Files
import NativeTypes.Command.Outcome
import NativeTypes.Settings

/-! # Running a command

A command reads the settings of its printer, if it is given any, and then its container, and does
its work. What stops it on the way is a chain of reasons, the outermost first (`Failure`). Files are
read through a function, so that everything here holds of any place where files may be. -/

namespace NativeTypes

/-- What stopped a command: the outermost reason, and its causes down to the innermost. -/
structure Failure where
  reason : String
  causes : List String

namespace Failure

/-- A text whose further lines are indented. -/
def indented (indent : String) (s : String) : String :=
  String.intercalate ("\n" ++ indent) (s.splitOn "\n")

/-- The lines of the causes: a single one is indented, and several are numbered. -/
def causeLines : List String → List String
  | [c] => ["    " ++ indented "    " c]
  | cs => cs.zipIdx.map fun (c, i) =>
    let number := i.repr
    String.ofList (List.replicate (5 - number.length) ' ') ++ number ++ ": " ++
      indented "       " c

/-- The text of a failure. -/
def text (f : Failure) : String :=
  "Error: " ++ f.reason ++ "\n\nCaused by:\n" ++ String.join ((causeLines f.causes).map Text.line)

end Failure

/-- How the program ends: its exit code, and what it wrote. -/
structure Ending where
  code : Nat
  out : String
  err : String
deriving DecidableEq

namespace Ending

/-- The ending of a command that did its work. -/
def ofOutcome (o : Outcome) : Ending :=
  ⟨if o.isSuccess then 0 else 1, o.out, o.err⟩

/-- The ending of a command that was stopped. -/
def ofFailure (f : Failure) : Ending :=
  ⟨1, "", f.text⟩

end Ending

namespace Command

/-- The printer of a file with settings, from what became of reading the file. -/
def printerOf (path : String) : Except ReadFailure String → Except Failure Printer
  | .error e => .error ⟨"Failed to read config " ++ path, [e.text]⟩
  | .ok text =>
    (Printer.ofToml text).mapError fun e =>
      ⟨"Invalid config " ++ path, [Printer.SettingsError.summary, e.message]⟩

/-- The container of a file, from what became of reading the file. -/
def containerOf (path : String) : Except ReadFailure String → Except Failure Container
  | .error e => .error ⟨"Failed to read " ++ path, [e.text]⟩
  | .ok text =>
    (Container.decode text).mapError fun e =>
      ⟨"Failed to decode type container " ++ path, [e.containerMessage, e.message]⟩

/-- What a command makes of a container. -/
def apply (c : Container) (p : Printer) : Command → Outcome
  | print _ _ true => c.runPrintAll p
  | print _ _ false => c.runPrint p
  | validate _ => c.runValidate

/-- The file of the container. -/
def input : Command → String
  | print input _ _ => input
  | validate input => input

/-- The file with the settings of the printer. -/
def config? : Command → Option String
  | print _ config _ => config
  | validate _ => none

variable {m : Type → Type} [Monad m]

/-- **Runs a command** in a place where `read` reads files. The settings are read before the
container. -/
def run (read : String → m (Except ReadFailure String)) (c : Command) : m Ending := do
  let printer ← match c.config? with
    | none => pure (.ok {})
    | some path => printerOf path <$> read path
  match printer with
  | .error f => return .ofFailure f
  | .ok p =>
    match containerOf c.input (← read c.input) with
    | .error f => return .ofFailure f
    | .ok x => return .ofOutcome (c.apply x p)

end Command

end NativeTypes
