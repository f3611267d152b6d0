/-!
# Blank characters

The characters that separate words: the tabs and line ends of ASCII, its four separator
controls, the space, and the space and line separators of Unicode. A formula is read, and
an index line is trimmed, by this one class.
-/

namespace DiceLedger.Text

def isBlank (c : Char) : Bool :=
  let n := c.toNat
  (0x9 ≤ n && n ≤ 0xD) || (0x1C ≤ n && n ≤ 0x20) || n == 0x85 || n == 0xA0 || n == 0x1680
    || (0x2000 ≤ n && n ≤ 0x200A) || n == 0x2028 || n == 0x2029 || n == 0x202F || n == 0x205F
    || n == 0x3000

def trim (cs : List Char) : List Char :=
  ((cs.dropWhile isBlank).reverse.dropWhile isBlank).reverse

end DiceLedger.Text
