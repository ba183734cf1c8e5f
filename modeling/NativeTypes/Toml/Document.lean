import NativeTypes.Toml.Item
import NativeTypes.Toml.Number
import NativeTypes.Toml.Text

/-! # TOML documents

`Toml.parse` reads a document line by line into statements and builds the table that they describe.
Values nest at most `maxDepth` deep. Everything that is read off the front of a text is taken with
fuel for as many steps as the text has characters, which is enough, since every step takes one. -/

namespace NativeTypes.Toml

/-- Nothing is a malformed text. -/
def orMalformed {α : Type} : Option α → Except Fault α
  | some a => .ok a
  | none => .error .malformed

/-- Reads a value that holds no others. -/
def scalar (s : List Char) : Except Fault (Item × List Char) :=
  match s with
  | 't' :: 'r' :: 'u' :: 'e' :: r => .ok (.boolean true, r)
  | 'f' :: 'a' :: 'l' :: 's' :: 'e' :: r => .ok (.boolean false, r)
  | 'i' :: 'n' :: 'f' :: r => .ok (.float "inf", r)
  | 'n' :: 'a' :: 'n' :: r => .ok (.float "nan", r)
  | '"' :: _ => (orMalformed (quoted? s)).map fun x => (.text (String.ofList x.1), x.2)
  | '\'' :: _ => (orMalformed (quoted? s)).map fun x => (.text (String.ofList x.1), x.2)
  | _ =>
    match moment? s with
    | some (l, r) => .ok (.moment (String.ofList l), r)
    | none =>
      match float? s with
      | some (l, r) => .ok (.float (String.ofList l), r)
      | none => (orMalformed (integer? s)).map fun x => (.integer x.1, x.2)

/-- Splits the parts of a key into those before the last one, and the last one. -/
def splitKey (parts : List String) : List String × String :=
  (parts.dropLast, parts.getLastD "")

/-- Reads a key, an equals sign and a value. -/
def entry (value : List Char → Except Fault (Item × List Char)) (s : List Char) :
    Except Fault ((List String × String × Item) × List Char) := do
  let (parts, r) ← orMalformed (key s)
  let r ← orMalformed (char? '=' r)
  let (x, r) ← value (blank r)
  let (path, last) := splitKey parts
  return ((path, last, x), r)

/-- Reads the items of an array and its closing bracket. -/
def arrayItems (value : List Char → Except Fault (Item × List Char)) :
    Nat → List Char → Except Fault (List Item × List Char)
  | 0, _ => .error .malformed
  | fuel + 1, s => do
    match ← orMalformed (trivia false s) with
    | ']' :: r => return ([], r)
    | r =>
      let (x, r) ← value r
      match ← orMalformed (trivia false r) with
      | ']' :: r => return ([x], r)
      | ',' :: r =>
        let (xs, r) ← arrayItems value fuel r
        return (x :: xs, r)
      | _ => .error .malformed

/-- Reads entries of a table in braces, at least one, and its closing brace. -/
def bracesEntries (value : List Char → Except Fault (Item × List Char)) :
    Nat → List Char → Except Fault (List (List String × String × Item) × List Char)
  | 0, _ => .error .malformed
  | fuel + 1, s => do
    let (e, r) ← entry value s
    match blank r with
    | '}' :: r => return ([e], r)
    | ',' :: r =>
      let (es, r) ← bracesEntries value fuel r
      return (e :: es, r)
    | _ => .error .malformed

/-- Reads a table after its opening brace. -/
def braces (value : List Char → Except Fault (Item × List Char)) (s : List Char) :
    Except Fault (Item × List Char) :=
  match blank s with
  | '}' :: r => .ok (.table .braces [], r)
  | r => do
    let (es, r) ← bracesEntries value s.length r
    return (← buildBraces es, r)

/-- Reads a value in which arrays and tables nest at most `depth` deep. -/
def value : Nat → List Char → Except Fault (Item × List Char)
  | 0, '[' :: _ => .error .malformed
  | 0, '{' :: _ => .error .malformed
  | depth + 1, '[' :: r => (arrayItems (value depth) r.length r).map fun x => (.array x.1, x.2)
  | depth + 1, '{' :: r => braces (value depth) r
  | _, s => scalar s

/-- Reads the key of a header and its closing brackets. -/
def header (closing : List Char) (s : List Char) : Except Fault (List String × List Char) := do
  let (path, r) ← orMalformed (key s)
  if closing.isPrefixOf r then return (path, r.drop closing.length) else .error .malformed

/-- Reads a statement, without the end of its line. -/
def statement (s : List Char) : Except Fault (Statement × List Char) :=
  match s with
  | '[' :: '[' :: r => (header [']', ']'] r).map fun x => (.element x.1, x.2)
  | '[' :: r => (header [']'] r).map fun x => (.table x.1, x.2)
  | _ => (entry (value maxDepth) s).map fun x => (.entry x.1.1 x.1.2.1 x.1.2.2, x.2)

/-- Reads the statements of a text, each with the end of its line. -/
def statements : Nat → List Char → Except Fault (List Statement)
  | 0, _ => .error .malformed
  | fuel + 1, s =>
    match blank s with
    | [] => .ok []
    | c :: r =>
      if c = '#' ∨ c = '\n' ∨ c = '\r' then do
        statements fuel (← orMalformed (lineEnd (c :: r)))
      else do
        let (x, t) ← statement (c :: r)
        let xs ← statements fuel (← orMalformed (lineEnd t))
        return x :: xs

/-- **The table of a document.** A mark of the byte order in front of the text is no part of it. -/
def parse (text : String) : Except Fault Entries := do
  let s := text.toList
  let s := if s.head? == some '\uFEFF' then s.drop 1 else s
  build [] [] (← statements (s.length + 1) s)

end NativeTypes.Toml
