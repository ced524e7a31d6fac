/-!
# Blank characters

The characters that count as white space, and the removal of them at both ends
of a text.
-/
namespace GoTree.Text

/-- Whether a code point is white space: the ASCII controls tab to carriage
return, the space, next line, no-break space and the wider spaces and line
separators. -/
def isBlank (c : Char) : Bool :=
  let n := c.toNat
  (0x09 ≤ n && n ≤ 0x0d) || n == 0x20 || n == 0x85 || n == 0xa0 || n == 0x1680 ||
  (0x2000 ≤ n && n ≤ 0x200a) || n == 0x2028 || n == 0x2029 || n == 0x202f || n == 0x205f ||
  n == 0x3000

/-- Drops the blanks at both ends. -/
def trim (cs : List Char) : List Char :=
  ((cs.dropWhile isBlank).reverse.dropWhile isBlank).reverse

end GoTree.Text
