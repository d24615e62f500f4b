import Bellman.Cut

/-!
# Value functions

The cost from a stage on is approximated from below by the largest of a list of cuts. Cuts are added
at the end of the list, and only cuts of the declared dimension are accepted. Without cuts the
approximation is minus infinity, which `evaluate?` gives as `none`.
-/

namespace Bellman

open Data

/-- The larger of two scalars, the first if they do not compare. -/
def larger {S : Type} [LT S] [DecidableLT S] (a b : S) : S :=
  if a < b then b else a

/-- The pointwise maximum of a list of cuts over states with `dim` coordinates. The dimension is
kept as it was given. -/
structure ValueFunction (S : Type) where
  dim : Value
  cuts : List (Cut S) := []

namespace ValueFunction

variable {S : Type}

def size (v : ValueFunction S) : Nat :=
  v.cuts.length

/-- A value function with one more cut, whatever its dimension. -/
def push (v : ValueFunction S) (c : Cut S) : ValueFunction S :=
  { v with cuts := v.cuts ++ [c] }

@[simp] theorem cuts_push (v : ValueFunction S) (c : Cut S) : (v.push c).cuts = v.cuts ++ [c] := rfl

@[simp] theorem dim_push (v : ValueFunction S) (c : Cut S) : (v.push c).dim = v.dim := rfl

def dropLast (v : ValueFunction S) (n : Nat) : ValueFunction S :=
  { v with cuts := v.cuts.take (v.cuts.length - n) }

/-- The cut with the given slopes and intercept, if its dimension is that of the value function. -/
def readCut [Scalar S] (v : ValueFunction S) (slopes intercept : Value) : Except Fault (Cut S) := do
  let slopes ← Scalar.readVector "cut lambdas" v.dim slopes
  return ⟨slopes, ← Scalar.read intercept⟩

/-- A value function with the cut given by slopes and an intercept, which must not be left out. -/
def add [Scalar S] (v : ValueFunction S) (slopes intercept : Value) :
    Except Fault (ValueFunction S) :=
  match intercept with
  | .null => .error .betaMissing
  | intercept => (v.readCut slopes intercept).map v.push

/-- A value function with a ready cut, refused if its dimension differs. -/
def addCut (v : ValueFunction S) (c : Cut S) : Except Fault (ValueFunction S) :=
  if v.dim.isCount c.dim then .ok (v.push c)
  else .error (.dimension "cut lambdas" v.dim (.int c.dim))

variable [Zero S] [Add S] [Mul S] [LT S] [DecidableLT S]

/-- The largest value of the cuts at a state; `none` if there are no cuts. -/
def evaluate? (v : ValueFunction S) (state : List S) : Option S :=
  match v.cuts.map (·.evaluate state) with
  | [] => none
  | first :: rest => some (rest.foldl larger first)

def evaluateAt [Scalar S] (v : ValueFunction S) (state : Value) : Except Fault (Option S) := do
  return v.evaluate? (← Scalar.readVector "state" v.dim state)

end ValueFunction

end Bellman
