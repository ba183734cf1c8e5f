/-! # Texts and blanks of TOML

The parts of a TOML document that are read character by character: blanks and comments, the four
kinds of quoted texts, and keys. Each function takes its part off the front of a text and gives what
is left, or nothing where the text is malformed. -/

namespace NativeTypes.Toml

/-! ### Blanks and comments -/

/-- A blank inside a line. -/
def isBlank (c : Char) : Bool :=
  c == ' ' || c == '\t'

/-- What is left after blanks. -/
def blank (s : List Char) : List Char :=
  s.dropWhile isBlank

/-- Whether a character is shown or a tabulator: all are but the control characters. -/
def isPlain (c : Char) : Bool :=
  c == '\t' || (0x20 ≤ c.toNat && c.toNat ≠ 0x7F)

/-- What is left after a line break, if there is one. -/
def newline? : List Char → Option (List Char)
  | '\n' :: r => some r
  | '\r' :: '\n' :: r => some r
  | _ => none

/-- What is left after the end of a line, or of the text: blanks and a comment may come before. -/
def lineEnd (s : List Char) : Option (List Char) :=
  let r := blank s
  let r := if r.head? == some '#' then r.dropWhile isPlain else r
  if r.isEmpty then some [] else newline? r

/-- What is left after blanks, line breaks and whole comments. -/
def trivia (comment : Bool) : List Char → Option (List Char)
  | '\n' :: r => trivia false r
  | '\r' :: '\n' :: r => trivia false r
  | c :: r =>
    if comment then if isPlain c then trivia true r else none
    else if isBlank c then trivia false r
    else if c = '#' then trivia true r
    else some (c :: r)
  | [] => some []

/-! ### Quoted texts -/

/-- The value of hexadecimal digits. -/
def hexValue? (ds : List Char) : Option Nat :=
  ds.foldlM (fun n c =>
    if c.isDigit then some (n * 16 + (c.toNat - '0'.toNat))
    else if 'a' ≤ c ∧ c ≤ 'f' then some (n * 16 + (c.toNat - 'a'.toNat + 10))
    else if 'A' ≤ c ∧ c ≤ 'F' then some (n * 16 + (c.toNat - 'A'.toNat + 10))
    else none) 0

/-- The character of hexadecimal digits. -/
def hexChar? (ds : List Char) : Option Char := do
  let n ← hexValue? ds
  if n.isValidChar then some (Char.ofNat n) else none

/-- The character of an escape in one letter. -/
def letter? : Char → Option Char
  | 'b' => some '\x08'
  | 't' => some '\t'
  | 'n' => some '\n'
  | 'f' => some '\x0c'
  | 'r' => some '\r'
  | '"' => some '"'
  | '\\' => some '\\'
  | _ => none

/-- Puts a character in front of a text that was read. -/
def put? (c : Option Char) (x : Option (List Char × List Char)) :
    Option (List Char × List Char) := do
  let c ← c
  let (cs, r) ← x
  return (c :: cs, r)

/-- Reads a text in double quotes, after the opening one. -/
def basic : List Char → Option (List Char × List Char)
  | '"' :: r => some ([], r)
  | '\\' :: 'u' :: a :: b :: c :: d :: r => put? (hexChar? [a, b, c, d]) (basic r)
  | '\\' :: 'U' :: a :: b :: c :: d :: e :: f :: g :: h :: r =>
    put? (hexChar? [a, b, c, d, e, f, g, h]) (basic r)
  | '\\' :: c :: r => put? (letter? c) (basic r)
  | c :: r => if isPlain c ∧ c ≠ '\\' then put? (some c) (basic r) else none
  | [] => none

/-- Reads a text of several lines in double quotes, after the opening ones. A backslash at the end
of a line takes all blanks and line breaks after it away, which is what `joining` is about. -/
def basicLines (joining : Bool) : List Char → Option (List Char × List Char)
  | '"' :: '"' :: '"' :: '"' :: '"' :: r => some (['"', '"'], r)
  | '"' :: '"' :: '"' :: '"' :: r => some (['"'], r)
  | '"' :: '"' :: '"' :: r => some ([], r)
  | '\\' :: 'u' :: a :: b :: c :: d :: r => put? (hexChar? [a, b, c, d]) (basicLines false r)
  | '\\' :: 'U' :: a :: b :: c :: d :: e :: f :: g :: h :: r =>
    put? (hexChar? [a, b, c, d, e, f, g, h]) (basicLines false r)
  | '\\' :: c :: r =>
    if (newline? (blank (c :: r))).isSome then basicLines true (c :: r)
    else put? (letter? c) (basicLines false r)
  | '\r' :: '\n' :: r =>
    if joining then basicLines true r else put? (some '\n') (basicLines false r)
  | '\n' :: r =>
    if joining then basicLines true r else put? (some '\n') (basicLines false r)
  | c :: r =>
    if joining ∧ isBlank c then basicLines true r
    else if isPlain c ∧ c ≠ '\\' then put? (some c) (basicLines false r)
    else none
  | [] => none

/-- Reads a text in single quotes, after the opening one. -/
def verbatim : List Char → Option (List Char × List Char)
  | '\'' :: r => some ([], r)
  | c :: r => if isPlain c then put? (some c) (verbatim r) else none
  | [] => none

/-- Reads a text of several lines in single quotes, after the opening ones. -/
def verbatimLines : List Char → Option (List Char × List Char)
  | '\'' :: '\'' :: '\'' :: '\'' :: '\'' :: r => some (['\'', '\''], r)
  | '\'' :: '\'' :: '\'' :: '\'' :: r => some (['\''], r)
  | '\'' :: '\'' :: '\'' :: r => some ([], r)
  | '\r' :: '\n' :: r => put? (some '\n') (verbatimLines r)
  | '\n' :: r => put? (some '\n') (verbatimLines r)
  | c :: r => if isPlain c then put? (some c) (verbatimLines r) else none
  | [] => none

/-- Reads a quoted text of any kind. A line break right after three opening quotes is no part of
it. -/
def quoted? : List Char → Option (List Char × List Char)
  | '"' :: '"' :: '"' :: r => basicLines false ((newline? r).getD r)
  | '"' :: r => basic r
  | '\'' :: '\'' :: '\'' :: r => verbatimLines ((newline? r).getD r)
  | '\'' :: r => verbatim r
  | _ => none

/-! ### Keys -/

/-- The characters of a bare key. -/
def isBare (c : Char) : Bool :=
  c.isAlphanum || c == '-' || c == '_'

/-- Reads one part of a key. -/
def keyPart : List Char → Option (List Char × List Char)
  | '"' :: r => basic r
  | '\'' :: r => verbatim r
  | s =>
    let part := s.takeWhile isBare
    if part.isEmpty then none else some (part, s.dropWhile isBare)

/-- The greatest number of parts of a key, which is also the greatest depth of a value. -/
def maxDepth : Nat := 79

/-- Reads a key of at most `n` parts, with blanks around each. -/
def keyParts : Nat → List Char → Option (List String × List Char)
  | 0, _ => none
  | n + 1, s => do
    let (part, r) ← keyPart (blank s)
    match blank r with
    | '.' :: t =>
      let (parts, u) ← keyParts n t
      return (String.ofList part :: parts, u)
    | t => return ([String.ofList part], t)

/-- Reads a key. -/
def key (s : List Char) : Option (List String × List Char) :=
  keyParts maxDepth s

end NativeTypes.Toml
