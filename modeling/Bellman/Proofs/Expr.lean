import Bellman.Problem.Formula
import Mathlib.Algebra.BigOperators.Group.List.Basic
import Mathlib.Algebra.Ring.Defs

/-!
# Expressions over a ring

Over a commutative ring an expression is added up in any order. The expressions that a problem gives
mention no decision variables other than those of the state and the control, and their values depend
on these alone.
-/

namespace Bellman

variable {S : Type}

/-- Whether a column is a coordinate of the state that a stage starts in, or of its control. -/
def Column.IsInput (shape : Shape) : Column → Prop
  | .state i => i < shape.states
  | .control j => j < shape.controls
  | _ => False

/-- Whether an expression mentions only columns of the state and the control. -/
def Expr.IsScoped (shape : Shape) (e : Expr S) : Prop :=
  ∀ m, Term.multiple m ∈ e → m.column.IsInput shape

variable [CommRing S] {w : Nat → S} {point point' : Column → S}

theorem total_eq_sum (xs : List S) : total xs = xs.sum :=
  List.sum_eq_foldl.symm

theorem Weight.eval_neg (x : Weight S) : x.neg.eval w = -x.eval w := by
  induction x with
  | constant s => rfl
  | coordinate s k => exact neg_mul s (w k)
  | scaled s x ih => simp only [neg, eval, ih, mul_neg]
  | times x k ih => simp only [neg, eval, ih, neg_mul]

theorem Multiple.eval_neg (m : Multiple S) (v : S) : m.neg.eval w v = -m.eval w v := by
  induction m with
  | single s c => exact neg_mul s v
  | weighted x c => simp only [neg, eval, Weight.eval_neg, neg_mul]
  | scaled s m ih => simp only [neg, eval, ih, mul_neg]
  | times m k ih => simp only [neg, eval, ih, neg_mul]

theorem Multiple.column_neg (m : Multiple S) : m.neg.column = m.column := by
  induction m with
  | single s c => rfl
  | weighted x c => rfl
  | scaled s m ih => exact ih
  | times m k ih => exact ih

namespace Term

@[simp] theorem eval_constant (s : S) : (constant s).eval w point = s := rfl

@[simp] theorem eval_single (s : S) (c : Column) : (single s c).eval w point = s * point c := rfl

@[simp] theorem eval_ofColumn (c : Column) : (ofColumn c : Term S).eval w point = point c :=
  one_mul (point c)

@[simp] theorem eval_neg (t : Term S) : t.neg.eval w point = -t.eval w point := by
  cases t with
  | weight x => exact x.eval_neg
  | multiple m =>
      change m.neg.eval w (point m.neg.column) = -m.eval w (point m.column)
      rw [m.column_neg, m.eval_neg]

end Term

namespace Expr

@[simp] theorem eval_cons (t : Term S) (e : Expr S) :
    eval w point (t :: e) = t.eval w point + eval w point e := by
  simp only [eval, total_eq_sum, List.map_cons, List.sum_cons]

@[simp] theorem eval_append (e e' : Expr S) :
    eval w point (e ++ e') = eval w point e + eval w point e' := by
  simp only [eval, total_eq_sum, List.map_append, List.sum_append]

@[simp] theorem eval_neg (e : Expr S) : e.neg.eval w point = -eval w point e := by
  induction e with
  | nil => simp [neg]
  | cons t e ih =>
      change eval w point (t.neg :: neg e) = _
      rw [eval_cons, eval_cons, ih, Term.eval_neg, neg_add]

/-- The value of a constant expression, whatever the noise and the point. -/
theorem constantSum_eq_eval (w : Nat → S) (point : Column → S) {e : Expr S}
    (h : e.isConstant = true) :
    e.constantSum = eval w point e := by
  induction e with
  | nil => rfl
  | cons t e ih =>
      simp only [isConstant, List.all_cons, Bool.and_eq_true] at h
      obtain ⟨s, hs⟩ := Option.isSome_iff_exists.mp h.1
      have ht : t = .constant s := by
        unfold Term.constant? at hs
        split at hs
        · exact congrArg Term.constant (Option.some.inj hs)
        · cases hs
      have hrest := ih h.2
      rw [constantSum, total_eq_sum] at hrest ⊢
      rw [List.filterMap_cons_some hs, List.sum_cons, hrest, eval_cons, ht, Term.eval_constant]

/-- Points with the same state and control give a scoped expression the same value. -/
theorem IsScoped.eval_congr {shape : Shape} {e : Expr S} (h : e.IsScoped shape)
    (hpoint : ∀ c : Column, c.IsInput shape → point c = point' c) :
    eval w point e = eval w point' e := by
  induction e with
  | nil => rfl
  | cons t e ih =>
      have ht : t.eval w point = t.eval w point' := by
        cases t with
        | weight x => rfl
        | multiple m =>
            simp only [Term.eval, hpoint m.column (h m List.mem_cons_self)]
      rw [eval_cons, eval_cons, ht, ih fun m hm => h m (List.mem_cons_of_mem _ hm)]

end Expr

end Bellman
