/-!
# Halves of surrogate pairs

Some codes are not those of a character but of one half of a surrogate pair. An escape can write
such a half alone. In a text it is kept as a stand-in: the private character whose code lies
`0x100000` above that of the half. Wherever codes are shown, the half's own code is shown.
-/

namespace Bellman.Text

/-- How far the stand-in of a half lies above its code. -/
def standInShift : Nat := 0x100000

/-- Whether a code is that of a half. -/
def isHalfCode (code : Nat) : Bool :=
  0xD800 ≤ code && code < 0xE000

/-- The character that stands for a code, which has to be one of a character or of a half. -/
def ofCode (code : Nat) : Char :=
  Char.ofNat (if isHalfCode code then code + standInShift else code)

/-- The code of the half that a character stands in for, if it does. -/
def halfCode? (c : Char) : Option Nat :=
  if isHalfCode (c.toNat - standInShift) then some (c.toNat - standInShift) else none

end Bellman.Text
