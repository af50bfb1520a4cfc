/-!
# Blanks

Two classes of blank characters. The ASCII blanks separate the parts of a numeral or of a
hexadecimal string. The wide blanks are the other characters with the Unicode property
`White_Space`; a numeral may be surrounded by them too.
-/

set_option autoImplicit false

namespace SwapCodec.Text

/-- Space, tab, line feed, vertical tab, form feed and carriage return. -/
def isAsciiBlank (c : Char) : Bool :=
  c == ' ' || ('\t' ≤ c && c ≤ '\r')

/-- The code points of `White_Space` from U+0080 on. -/
def wideBlanks : List Nat :=
  [0x85, 0xa0, 0x1680, 0x2000, 0x2001, 0x2002, 0x2003, 0x2004, 0x2005, 0x2006, 0x2007, 0x2008,
   0x2009, 0x200a, 0x2028, 0x2029, 0x202f, 0x205f, 0x3000]

/-- A blank outside ASCII. -/
def isWideBlank (c : Char) : Bool :=
  wideBlanks.contains c.toNat

/-- The text between the first and the last character that is not an ASCII blank. -/
def trimBlanks (cs : List Char) : List Char :=
  ((cs.dropWhile isAsciiBlank).reverse.dropWhile isAsciiBlank).reverse

end SwapCodec.Text
