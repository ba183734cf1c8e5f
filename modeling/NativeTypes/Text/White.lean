/-! # White space

The characters with the Unicode property `White_Space`. -/

namespace NativeTypes.Text

/-- Whether a character has the property `White_Space`. -/
def isWhite (c : Char) : Bool :=
  let n := c.toNat
  (9 ≤ n && n ≤ 13) || n == 0x20 || n == 0x85 || n == 0xA0 || n == 0x1680 ||
    (0x2000 ≤ n && n ≤ 0x200A) || n == 0x2028 || n == 0x2029 || n == 0x202F || n == 0x205F ||
    n == 0x3000

/-- Whether a text has no character but white space. -/
def isBlank (s : String) : Bool :=
  s.toList.all isWhite

end NativeTypes.Text
