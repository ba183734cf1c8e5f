import NativeTypes.Json.Value

/-! # Writing a value

A value is written compactly, without blanks, or spread over lines, where every item of a list and
every field of an object has its own line, indented by two blanks for each level. In a string only
the quote, the backslash and the control characters are escaped. -/

namespace NativeTypes.Json

/-- How a value is laid out. -/
inductive Style where
  | compact
  | pretty
deriving DecidableEq

namespace Style

/-- What stands before an item on level `n`. -/
def newline : Style → Nat → List Char
  | compact, _ => []
  | pretty, n => '\n' :: List.replicate (2 * n) ' '

/-- What stands between a name and a value. -/
def colon : Style → List Char
  | compact => [':']
  | pretty => [':', ' ']

end Style

/-- The digit of a value below sixteen. -/
def hexDigit (n : Nat) : Char :=
  Nat.digitChar n

/-- A character inside a string. -/
def escaped (c : Char) : List Char :=
  if c = '"' then ['\\', '"']
  else if c = '\\' then ['\\', '\\']
  else if c = '\x08' then ['\\', 'b']
  else if c = '\x0c' then ['\\', 'f']
  else if c = '\n' then ['\\', 'n']
  else if c = '\r' then ['\\', 'r']
  else if c = '\t' then ['\\', 't']
  else if c < ' ' then ['\\', 'u', '0', '0', hexDigit (c.toNat / 16), hexDigit (c.toNat % 16)]
  else [c]

/-- The characters of a string up to and with its closing quote. -/
def escapedRest : List Char → List Char
  | [] => ['"']
  | c :: r => escaped c ++ escapedRest r

/-- A string. -/
def writeString (s : String) : List Char :=
  '"' :: escapedRest s.toList

/-- A number. -/
def writeNumber : Number → List Char
  | .integer i => (integerText i).toList
  | .real s x => (realLayout.writeSigned s x).toList

mutual

/-- A value on level `n`. -/
def write (l : Style) (n : Nat) : Json → List Char
  | null => ['n', 'u', 'l', 'l']
  | boolean true => ['t', 'r', 'u', 'e']
  | boolean false => ['f', 'a', 'l', 's', 'e']
  | number x => writeNumber x
  | string s => writeString s
  | array [] => ['[', ']']
  | array (j :: js) => '[' :: (writeItems l (n + 1) (j :: js) ++ l.newline n ++ [']'])
  | object [] => ['{', '}']
  | object (f :: fs) => '{' :: (writeFields l (n + 1) (f :: fs) ++ l.newline n ++ ['}'])

/-- The items of a list on level `n`. -/
def writeItems (l : Style) (n : Nat) : List Json → List Char
  | [] => []
  | [j] => l.newline n ++ write l n j
  | j :: js => l.newline n ++ write l n j ++ ',' :: writeItems l n js

/-- The fields of an object on level `n`. -/
def writeFields (l : Style) (n : Nat) : List (String × Json) → List Char
  | [] => []
  | [(k, j)] => l.newline n ++ writeString k ++ l.colon ++ write l n j
  | (k, j) :: fs =>
    l.newline n ++ writeString k ++ l.colon ++ write l n j ++ ',' :: writeFields l n fs

end

/-- **The text of a value.** -/
def text (l : Style) (j : Json) : String :=
  String.ofList (write l 0 j)

end NativeTypes.Json
