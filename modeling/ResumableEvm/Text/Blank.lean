/-!
# Blanks around text

Text that people write by hand has blanks around it.  A blank is a character that Unicode
counts as white space.

* `isBlank` — the class.
* `trimBlanks` — the text without blanks at either end.
-/

namespace ResumableEvm

def isBlank (c : Char) : Bool :=
  let n := c.toNat
  (9 ≤ n && n ≤ 13) || n == 0x20 || n == 0x85 || n == 0xa0 || n == 0x1680
    || (0x2000 ≤ n && n ≤ 0x200a) || n == 0x2028 || n == 0x2029 || n == 0x202f || n == 0x205f
    || n == 0x3000

def trimBlanks (text : List Char) : List Char :=
  ((text.dropWhile isBlank).reverse.dropWhile isBlank).reverse

end ResumableEvm
