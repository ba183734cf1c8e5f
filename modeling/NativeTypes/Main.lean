import NativeTypes.Command.Run

/-! # The program

Reads the arguments, runs the command that they ask for on the files of the system, and writes what
came of it. -/

namespace NativeTypes

/-- How the program is used. -/
def usage : String :=
  "Validate and print containers of native module types\n\n" ++
  "Usage: native-types [-v] [-d] print -i FILE [-c FILE] [--strict]\n" ++
  "       native-types [-v] [-d] validate -i FILE\n"

/-- The number of an error of the system. Opening a file gives it with the sign changed. -/
def systemError (code : UInt32) : UInt32 :=
  min code (-code)

/-- Why the system did not read a file. -/
def ReadFailure.ofError : IO.Error → ReadFailure
  | .noFileOrDirectory .. => .notFound
  | .permissionDenied .. => .notAllowed
  | e@(.inappropriateType _ code _) | e@(.invalidArgument _ code _) =>
    match systemError code with
    | 20 => .notDirectory
    | 21 => .isDirectory
    | 36 => .nameTooLong
    | _ => .other (toString e)
  | e => .other (toString e)

/-- Reads a file of the system. -/
def readSystemFile (path : String) : IO (Except ReadFailure String) := do
  match ← (IO.FS.readBinFile path).toBaseIO with
  | .ok bytes => return (FileTree.file bytes).read
  | .error e => return .error (.ofError e)

end NativeTypes

open NativeTypes

def main (args : List String) : IO UInt32 := do
  match Command.parse args with
  | .help =>
    IO.print usage
    return 0
  | .rejected =>
    IO.eprint usage
    return 2
  | .run c =>
    let e ← c.run readSystemFile
    IO.print e.out
    IO.eprint e.err
    return e.code.toUInt32
