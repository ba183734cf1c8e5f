import NativeTypes.Text.Hidden

/-! # Quoted texts

A text in double quotes, as messages show it: a character that is a quote, a backslash, a control or
not shown is escaped, by a letter where it has one and by its code point in braces otherwise. -/

namespace NativeTypes.Text

/-- A character inside double quotes. -/
def escapeShown (c : Char) : String :=
  if c = '\x00' then "\\0"
  else if c = '\t' then "\\t"
  else if c = '\n' then "\\n"
  else if c = '\r' then "\\r"
  else if c = '"' then "\\\""
  else if c = '\\' then "\\\\"
  else if 0x20 ≤ c.toNat ∧ c.toNat < 0x7F then c.toString
  else if c.toNat ≤ 0x7F ∨ isHidden c then
    "\\u\x7b" ++ String.ofList (Nat.toDigits 16 c.toNat) ++ "\x7d"
  else c.toString

/-- A text in double quotes. -/
def quote (s : String) : String :=
  "\"" ++ String.join (s.toList.map escapeShown) ++ "\""

example : quote "a\"b\\c\n\x7f" = "\"a\\\"b\\\\c\\n\\u\x7b7f\x7d\"" := by decide +kernel

end NativeTypes.Text
