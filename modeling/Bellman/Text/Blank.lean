/-!
# Blank characters

Two sets of characters count as blank: those trimmed off a keyword, and the slightly smaller set
that may surround a number. They differ in the four information separators.
-/

namespace Bellman.Text

/-- Blanks that may surround a number: the ASCII blanks and the spaces of Unicode. -/
def isNumberBlank (c : Char) : Bool :=
  let n := c.toNat
  (9 ≤ n && n ≤ 13) || n == 32 || n == 0x85 || n == 0xA0 || n == 0x1680 ||
    (0x2000 ≤ n && n ≤ 0x200A) || n == 0x2028 || n == 0x2029 || n == 0x202F || n == 0x205F ||
    n == 0x3000

/-- Blanks trimmed off a keyword: number blanks and the information separators. -/
def isBlank (c : Char) : Bool :=
  isNumberBlank c || (0x1C ≤ c.toNat && c.toNat ≤ 0x1F)

/-- A list without its leading and trailing elements that satisfy `p`. -/
def trim (p : Char → Bool) (cs : List Char) : List Char :=
  ((cs.dropWhile p).reverse.dropWhile p).reverse

end Bellman.Text
