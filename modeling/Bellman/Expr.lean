import Bellman.Scalar

/-!
# Affine expressions

The rows and costs of a stage are affine in the decision variables, with coefficients in which
coordinates of the noise may occur. An expression is a sum of products. A product is kept in the
order in which it was put together, because the last digits of its value depend on that order: a
`Weight` is a product of numbers and noise coordinates, and a `Multiple` is one in which a single
decision variable occurs, too. Numbers are gathered in front as long as there is only one other
factor.

Once the noise has a value, an expression has a linear form, in which like terms are added.
-/

namespace Bellman

/-- A decision variable of a stage program. -/
inductive Column where
  | state (i : Nat)
  | control (j : Nat)
  | nextState (i : Nat)
  /-- The bound on the future cost. -/
  | future
  /-- The bound on the cost of the stage, where there is one. -/
  | cost
  deriving DecidableEq, Repr

namespace Column

def name : Column → String
  | state i => s!"x[{i}]"
  | control j => s!"u[{j}]"
  | nextState i => s!"xf[{i}]"
  | future => "alpha"
  | cost => "cost"

/-- The group a column is listed with, and its place in the group. -/
def rank : Column → Nat × Nat
  | state i => (0, i)
  | control j => (1, j)
  | nextState i => (2, i)
  | future => (3, 0)
  | cost => (4, 0)

/-- Whether a column is listed no later than another. -/
def precedes (a b : Column) : Bool :=
  a.rank.1 < b.rank.1 || (a.rank.1 = b.rank.1 && a.rank.2 ≤ b.rank.2)

end Column

/-- A product of numbers and coordinates of the noise. -/
inductive Weight (S : Type) where
  | constant (s : S)
  /-- A number times a coordinate. -/
  | coordinate (s : S) (k : Nat)
  /-- A number times a product. -/
  | scaled (s : S) (x : Weight S)
  /-- A product times a coordinate. -/
  | times (x : Weight S) (k : Nat)
  deriving DecidableEq, Repr

/-- A product of numbers, coordinates of the noise and one decision variable. -/
inductive Multiple (S : Type) where
  /-- A number times a variable. -/
  | single (s : S) (c : Column)
  /-- A product without a variable times a variable. -/
  | weighted (x : Weight S) (c : Column)
  /-- A number times a product. -/
  | scaled (s : S) (m : Multiple S)
  /-- A product times a coordinate of the noise. -/
  | times (m : Multiple S) (k : Nat)
  deriving DecidableEq, Repr

/-- A product with at most one decision variable. -/
inductive Term (S : Type) where
  | weight (x : Weight S)
  | multiple (m : Multiple S)
  deriving DecidableEq, Repr

/-- A sum of terms. -/
abbrev Expr (S : Type) := List (Term S)

variable {S : Type}

namespace Weight

def neg [Neg S] : Weight S → Weight S
  | constant s => constant (-s)
  | coordinate s k => coordinate (-s) k
  | scaled s x => scaled s x.neg
  | times x k => times x.neg k

variable [Mul S]

def eval (w : Nat → S) : Weight S → S
  | constant s => s
  | coordinate s k => s * w k
  | scaled s x => s * x.eval w
  | times x k => x.eval w * w k

def timesNumber (r : S) : Weight S → Weight S
  | constant s => constant (s * r)
  | coordinate s k => coordinate (s * r) k
  | x => scaled r x

def timesCoordinate (k : Nat) : Weight S → Weight S
  | constant s => coordinate s k
  | x => times x k

def timesColumn (c : Column) : Weight S → Multiple S
  | constant s => .single s c
  | x => .weighted x c

variable [Zero S] [One S] [LE S] [DecidableLE S]

/-- A factor times the value of a product for a given noise. The factor takes up the numbers in
front of a product, and what is multiplied by zero counts as zero, whatever it is. -/
def scaledValue (w : Nat → S) (factor : S) : Weight S → S
  | constant s => factor * s
  | coordinate s k => factor * s * w k
  | scaled s x => if isZero s then 0 else x.scaledValue w (factor * s)
  | times x k =>
    let inner := x.scaledValue w 1
    if isZero inner then 0 else factor * inner * w k

end Weight

/-- What a multiple of a decision variable comes to for a given noise: the rate of the variable, if
it counts at all, and a constant beside it, which is zero unless the noise is not finite. -/
structure Share (S : Type) where
  constant : S
  rate : Option S
  deriving DecidableEq, Repr

namespace Multiple

def column : Multiple S → Column
  | single _ c => c
  | weighted _ c => c
  | scaled _ m => m.column
  | times m _ => m.column

def neg [Neg S] : Multiple S → Multiple S
  | single s c => single (-s) c
  | weighted x c => weighted x.neg c
  | scaled s m => scaled s m.neg
  | times m k => times m.neg k

variable [Mul S]

/-- The value of a product for a given noise and value of the variable. -/
def eval (w : Nat → S) (v : S) : Multiple S → S
  | single s _ => s * v
  | weighted x _ => x.eval w * v
  | scaled s m => s * m.eval w v
  | times m k => m.eval w v * w k

def timesNumber (r : S) : Multiple S → Multiple S
  | single s c => single (s * r) c
  | m => scaled r m

def timesCoordinate (k : Nat) (m : Multiple S) : Multiple S :=
  times m k

variable [Zero S] [One S] [LE S] [DecidableLE S]

/-- A factor times a product for a given noise. -/
def share (w : Nat → S) (factor : S) : Multiple S → Share S
  | single s _ => ⟨0, if isZero s then none else some (factor * s)⟩
  | weighted x _ =>
    let inner := x.scaledValue w 1
    ⟨0, if isZero inner then none else some (factor * inner)⟩
  | scaled s m => if isZero s then ⟨0, none⟩ else m.share w (factor * s)
  | times m k =>
    let inner := m.share w 1
    match inner.rate with
    | none => ⟨if isZero inner.constant then 0 else factor * inner.constant * w k, none⟩
    | some s =>
      ⟨factor * inner.constant * w k, if isZero (w k) then none else some (factor * s * w k)⟩

end Multiple

namespace Term

def constant (s : S) : Term S :=
  weight (.constant s)

def single (s : S) (c : Column) : Term S :=
  multiple (.single s c)

def ofColumn [One S] (c : Column) : Term S :=
  single 1 c

def neg [Neg S] : Term S → Term S
  | weight x => weight x.neg
  | multiple m => multiple m.neg

/-- The constant that a term is, if it mentions neither a decision variable nor the noise. -/
def constant? : Term S → Option S
  | weight (.constant s) => some s
  | _ => none

/-- Whether a term is a number times at most one variable or coordinate of the noise. -/
def isSimple : Term S → Bool
  | weight (.constant _) => true
  | weight (.coordinate _ _) => true
  | multiple (.single _ _) => true
  | _ => false

def eval [Mul S] (w : Nat → S) (point : Column → S) : Term S → S
  | weight x => x.eval w
  | multiple m => m.eval w (point m.column)

end Term

namespace Expr

def neg [Neg S] (e : Expr S) : Expr S :=
  e.map Term.neg

/-- Whether an expression mentions neither a decision variable nor the noise. -/
def isConstant (e : Expr S) : Bool :=
  e.all fun t => t.constant?.isSome

/-- An expression in the order in which it is added up: if all of its terms are simple, the
constants come first. -/
def arranged (e : Expr S) : Expr S :=
  if e.all Term.isSimple then
    (e.filter fun t => t.constant?.isSome) ++ e.filter fun t => t.constant?.isNone
  else e

variable [Zero S] [Add S]

def constantSum (e : Expr S) : S :=
  total (e.filterMap Term.constant?)

variable [Mul S]

/-- The value of an expression, added up from the left. -/
def eval (w : Nat → S) (point : Column → S) (e : Expr S) : S :=
  total (e.map (Term.eval w point))

@[simp] theorem eval_nil (w : Nat → S) (point : Column → S) : eval w point [] = 0 := rfl

end Expr

/-- A linear expression with its like terms added, and a constant beside it. -/
structure LinearForm (S : Type) where
  terms : List (Column × S)
  constant : S
  deriving DecidableEq, Repr

/-- A list of multiples of columns with one more added to it. -/
def addMultiple [Add S] (c : Column) (s : S) : List (Column × S) → List (Column × S)
  | [] => [(c, s)]
  | (d, r) :: rest => if d = c then (d, r + s) :: rest else (d, r) :: addMultiple c s rest

namespace LinearForm

variable [Zero S] [Add S] [Mul S]

def eval (point : Column → S) (form : LinearForm S) : S :=
  total (form.terms.map fun (c, s) => s * point c) + form.constant

variable [LE S] [DecidableLE S]

/-- A linear form without terms that are zero, its columns in the order in which they are listed. -/
def tidy (form : LinearForm S) : LinearForm S :=
  { form with
    terms := (form.terms.filter fun (_, s) => !isZero s).mergeSort
      fun a b => a.1.precedes b.1 }

variable [One S]

def add (w : Nat → S) (form : LinearForm S) : Term S → LinearForm S
  | .weight x => { form with constant := form.constant + x.scaledValue w 1 }
  | .multiple m =>
    let share := m.share w 1
    { terms := match share.rate with
        | some s => addMultiple m.column s form.terms
        | none => form.terms
      constant := form.constant + share.constant }

/-- The linear form of an expression for a given noise. -/
def ofExpr (w : Nat → S) (e : Expr S) : LinearForm S :=
  (Expr.arranged e).foldl (add w) ⟨[], 0⟩

end LinearForm

end Bellman
