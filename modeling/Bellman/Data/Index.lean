/-!
# Positions in a list

A position counts from the front if it is not negative, and from the end otherwise, so that `-1` is
the last one.
-/

namespace Bellman.Data

/-- The place from the front that a position in a list of the given length stands for. -/
def place? (length : Nat) (position : Int) : Option Nat :=
  let i := if position < 0 then position + length else position
  if i < 0 then none
  else if i.toNat < length then some i.toNat
  else none

/-- The element of a list at a position. -/
def elementAt? {α : Type} (xs : List α) (position : Int) : Option α := do
  xs[← place? xs.length position]?

@[simp] theorem place?_natCast (length i : Nat) :
    place? length (i : Int) = if i < length then some i else none := by
  have h : ¬ ((i : Int) < 0) := by omega
  simp [place?, h]

end Bellman.Data
