/-
# StagedRollout.Text.Blank -- white space around typed values

`isBlank` is the White_Space property of the Unicode Standard: the ASCII blanks, the next-line
control, the no-break spaces, and the spaces and separators of the other blocks. `trim` cuts
blanks from both ends of a text and leaves those inside it alone.
-/

namespace StagedRollout

/-- The White_Space property. -/
def isBlank (c : Char) : Bool :=
  let n := c.toNat
  (0x09 ≤ n && n ≤ 0x0d) || n = 0x20 || n = 0x85 || n = 0xa0 || n = 0x1680
    || (0x2000 ≤ n && n ≤ 0x200a) || n = 0x2028 || n = 0x2029 || n = 0x202f || n = 0x205f
    || n = 0x3000

/-- A text without the blanks at its ends. -/
def trim (text : List Char) : List Char :=
  ((text.dropWhile isBlank).reverse.dropWhile isBlank).reverse

end StagedRollout
