/-! # Files

Why a file was not read, and trees of files as values, on which a command runs without a system
around it. A path is followed one name at a time from a view of the tree to a view
(`FileTree.View.follow`), so the first name that leads nowhere decides why there is nothing to
read. -/

namespace NativeTypes

/-- Why a file was not read. -/
inductive ReadFailure where
  | notFound
  | notAllowed
  | notDirectory
  | isDirectory
  | nameTooLong
  | notText
  | other (reason : String)
deriving DecidableEq

namespace ReadFailure

/-- The description of a file that was not read. -/
def text : ReadFailure → String
  | notFound => "No such file or directory (os error 2)"
  | notAllowed => "Permission denied (os error 13)"
  | notDirectory => "Not a directory (os error 20)"
  | isDirectory => "Is a directory (os error 21)"
  | nameTooLong => "File name too long (os error 36)"
  | notText => "stream did not contain valid UTF-8"
  | other reason => reason

end ReadFailure

/-- A file with its bytes, or a directory with the names in it. -/
inductive FileTree where
  | file (bytes : ByteArray)
  | directory (entries : List (String × FileTree))

namespace FileTree

/-- The text of a file. -/
def read : FileTree → Except ReadFailure String
  | directory _ => .error .isDirectory
  | file bytes =>
    match String.fromUTF8? bytes with
    | some s => .ok s
    | none => .error .notText

/-- What is seen from inside a tree: what is there, and the directories around it, the nearest
first. -/
structure View where
  here : FileTree
  above : List FileTree

namespace View

/-- The view from the directory around; the outermost directory is around itself. -/
def parent (v : View) : View :=
  match v.above with
  | [] => v
  | d :: ds => ⟨d, ds⟩

/-- The view from the outermost directory. -/
def root (v : View) : View :=
  ⟨v.above.getLast?.getD v.here, []⟩

/-- The number of bytes that a name may have. -/
def nameSize : Nat := 255

/-- The number of bytes that a path may have. -/
def pathSize : Nat := 4095

/-- The view from a name in a directory. No name and `.` stand for the directory itself, and `..`
stands for the one around it. -/
def step (v : View) (name : String) : Except ReadFailure View :=
  match v.here with
  | .file _ => .error .notDirectory
  | .directory entries =>
    if name = "" ∨ name = "." then .ok v
    else if name = ".." then .ok v.parent
    else if nameSize < name.utf8ByteSize then .error .nameTooLong
    else match entries.lookup name with
      | none => .error .notFound
      | some t => .ok ⟨t, v.here :: v.above⟩

/-- The view from where names lead to, one after the other. -/
def follow : View → List String → Except ReadFailure View
  | v, [] => .ok v
  | v, name :: names => v.step name >>= fun w => w.follow names

/-- **Reads the file at a path.** A path that begins with a slash begins at the outermost
directory. -/
def read (v : View) (path : String) : Except ReadFailure String :=
  if path = "" then .error .notFound
  else if pathSize < path.utf8ByteSize then .error .nameTooLong
  else do
    let w ← (if path.startsWith "/" then v.root else v).follow (path.splitOn "/")
    w.here.read

/-- A directory with a file `a`: what some paths come to, seen from there. -/
example : [["a"], [".", "a"], ["..", "a"], ["a", ""], ["a", "."], ["b", "..", "a"], [".."]].map
    (fun names => ((⟨.directory [("a", .file "text".toUTF8)], []⟩ : View).follow names >>=
      (·.here.read)).toOption) =
    [some "text", some "text", some "text", none, none, none, none] := by decide +kernel

end View

end FileTree

end NativeTypes
