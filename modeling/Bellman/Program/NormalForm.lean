import Bellman.Program.Basic

/-!
# Normal forms of rows

Rows that say the same thing are listed in the same way: the noise is put in, like terms are added,
constants are moved to the bounds, and the first coefficient is positive. A row without variables
keeps its sign. A bound that is infinite by itself is none, whatever the constants are.
-/

namespace Bellman

/-- A range constraint on a sum of multiples of distinct columns. -/
structure NormalRow (S : Type) where
  name : RowName
  terms : List (Column × S)
  lower : Option S
  upper : Option S
  deriving DecidableEq, Repr

variable {S : Type} [Zero S] [Neg S]

namespace NormalRow

/-- The row that says the same about the negated terms. -/
def flip (r : NormalRow S) : NormalRow S :=
  { r with
    terms := r.terms.map fun (c, s) => (c, -s)
    lower := r.upper.map (-·)
    upper := r.lower.map (-·) }

/-- A row whose first coefficient is not negative. -/
def orient [LT S] [DecidableLT S] (r : NormalRow S) : NormalRow S :=
  match r.terms with
  | [] => r
  | (_, s) :: _ => if s < 0 then r.flip else r

end NormalRow

variable [One S] [Add S] [Sub S] [Mul S] [LE S] [DecidableLE S]

def Row.normal [LT S] [DecidableLT S] (w : Nat → S) (r : Row S) : NormalRow S :=
  let form := (LinearForm.ofExpr w r.body).tidy
  let moved (bound : Option S) : Option S :=
    (bound.filter (!isInfinite ·)).map (· - form.constant)
  NormalRow.orient ⟨r.name, form.terms, moved r.lower, moved r.upper⟩

namespace StageProgram

def normalRows [LT S] [DecidableLT S] (p : StageProgram S) : List (NormalRow S) :=
  p.rows.map (Row.normal p.noiseAt)

def linearObjective (p : StageProgram S) : LinearForm S :=
  (LinearForm.ofExpr p.noiseAt p.objective).tidy

end StageProgram

end Bellman
