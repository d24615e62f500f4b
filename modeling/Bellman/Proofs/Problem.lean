import Bellman.Problem.Formula
import Bellman.Proofs.Attempt
import Bellman.Proofs.Exact
import Bellman.Proofs.Expr
import Mathlib.Tactic.Ring

/-!
# What is asked of a problem

A problem is affine if its rows and costs mention only the state and the control, and it agrees with
itself at a noise value if it gives the same rows whether the value is known from the start or put
in for variables later. Rows that are given by formulas have both properties.
-/

namespace Bellman

open Data

variable {S : Type}

/-- Whether rows mention only the state and the control. -/
def StageRows.AreScoped (shape : Shape) (rows : StageRows S) : Prop :=
  ∀ stage view es, rows stage view = .ok es → ∀ e ∈ es, e.IsScoped shape

/-- Whether a cost mentions only the state and the control. -/
def StageCost.IsScoped (shape : Shape) (cost : StageCost S) : Prop :=
  ∀ stage view e, cost stage view = .ok e → e.IsScoped shape

/-- Whether a shape has the numbers of states and controls of a problem. -/
structure Problem.HasShape (problem : Problem S) (shape : Shape) : Prop where
  states : problem.states.toCount = .ok shape.states
  controls : problem.controls.toCount = .ok shape.controls

/-- Whether all rows and costs of a problem mention only the state and the control. -/
structure Problem.IsAffine (problem : Problem S) : Prop where
  dynamics : ∀ shape, problem.HasShape shape → problem.dynamics.AreScoped shape
  equalities : ∀ shape, problem.HasShape shape → problem.equalities.AreScoped shape
  inequalities : ∀ shape, problem.HasShape shape → problem.inequalities.AreScoped shape
  cost : ∀ shape, problem.HasShape shape → ∀ model pieces,
    problem.costPieces = .ok (model, pieces) → ∀ piece ∈ pieces, StageCost.IsScoped shape piece

/-- The linear cost model has a single piece. -/
theorem Problem.exists_piece {problem : Problem S} {pieces : List (StageCost S)}
    (h : problem.costPieces = .ok (.linear, pieces)) : ∃ piece, pieces = [piece] := by
  simp only [costPieces, bind_eq_ok, pure_eq_ok, Prod.mk.injEq] at h
  obtain ⟨model, -, pieces', hpieces, rfl, rfl⟩ := h
  cases hcost : problem.cost with
  | single piece =>
      rw [hcost] at hpieces
      exact ⟨piece, (Except.ok.inj hpieces).symm⟩
  | several pieces =>
      rw [hcost] at hpieces
      cases hpieces
  | plain v =>
      rw [hcost] at hpieces
      cases hpieces

/-- Either cost model has at least one piece. -/
theorem Problem.pieces_ne_nil {problem : Problem S} {model : CostModel}
    {pieces : List (StageCost S)} (h : problem.costPieces = .ok (model, pieces)) : pieces ≠ [] := by
  cases model with
  | linear =>
      obtain ⟨piece, rfl⟩ := exists_piece h
      exact List.cons_ne_nil _ _
  | piecewiseLinear =>
      simp only [costPieces, bind_eq_ok, pure_eq_ok, Prod.mk.injEq] at h
      obtain ⟨model, -, pieces', hpieces, rfl, rfl⟩ := h
      cases hcost : problem.cost with
      | single piece =>
          rw [hcost] at hpieces
          obtain rfl := Except.ok.inj hpieces
          exact List.cons_ne_nil _ _
      | several pieces =>
          rw [hcost] at hpieces
          cases pieces with
          | nil => cases hpieces
          | cons piece pieces =>
              obtain rfl := Except.ok.inj hpieces
              exact List.cons_ne_nil _ _
      | plain v =>
          rw [hcost] at hpieces
          simp only [DeclaredCost.pieces, bind_eq_ok] at hpieces
          obtain ⟨_, _, h⟩ := hpieces
          cases h

section Acceptance

variable [Scalar S] [LT S] [DecidableLT S]

omit [Scalar S] [LT S] [DecidableLT S] in
theorem Declaration.eq_num_of_readDimension {d : Declaration S} {isTooLow : Number → Bool}
    {v : Value} {n : Number} (h : d.readDimension isTooLow v = .ok n) : v = .num n := by
  simp only [readDimension, bind_eq_ok] at h
  obtain ⟨m, hm, h⟩ := h
  have hv : v = .num m := by
    unfold Value.compared at hm
    split at hm
    · exact congrArg Value.num (Except.ok.inj hm)
    · cases hm
  split at h
  · cases h
  · rw [hv, pure_eq_ok.mp h]

/-- A declaration that is accepted has as many boxes as states and controls, and its noise laws are
about as many coordinates as the noise has. -/
theorem Declaration.dimensions_of_check {d : Declaration S} {problem : Problem S}
    (h : d.check = .ok problem) :
    (Value.num problem.states).isCount problem.stateBounds.length = true ∧
      (Value.num problem.controls).isCount problem.controlBounds.length = true ∧
      ∀ law ∈ problem.laws.getD [], (Value.num problem.noises).isCount law.dim = true := by
  simp only [check, bind_eq_ok] at h
  obtain ⟨states, hstates, controls, hcontrols, noises, hnoises, stateLists, -, controlLists, -,
    h⟩ := h
  obtain hstates := eq_num_of_readDimension hstates
  obtain hcontrols := eq_num_of_readDimension hcontrols
  obtain hnoises := eq_num_of_readDimension hnoises
  split at h
  · cases h
  · next hcount =>
      split at h
      · cases h
      · next hcount' =>
          simp only [bind_eq_ok] at h
          obtain ⟨stateBounds, hs, controlBounds, hc, h⟩ := h
          split at h
          · cases h
          · next hlaws =>
              obtain rfl := pure_eq_ok.mp h
              rw [hstates] at hcount
              rw [hcontrols] at hcount'
              rw [hnoises] at hlaws
              have hslength := length_of_mapM hs
              have hclength := length_of_mapM hc
              rw [List.length_zipIdx] at hslength hclength
              simp only [hslength, hclength]
              refine ⟨by simpa using hcount, by simpa using hcount', fun law hlaw => ?_⟩
              obtain ⟨t, ht⟩ := List.mem_iff_getElem?.mp hlaw
              simpa using List.find?_eq_none.mp hlaws (law, t)
                (List.mk_mem_zipIdx_iff_getElem?.mpr ht)

theorem Declaration.counts_of_check {d : Declaration S} {problem : Problem S}
    (h : d.check = .ok problem) :
    (Value.num problem.states).isCount problem.stateBounds.length = true ∧
      (Value.num problem.controls).isCount problem.controlBounds.length = true :=
  ⟨(dimensions_of_check h).1, (dimensions_of_check h).2.1⟩

omit [Scalar S] [LT S] [DecidableLT S] in
theorem Problem.mem_laws {problem : Problem S} {stage : Int} {law : NoiseLaw S}
    (h : problem.law stage = .ok law) : law ∈ problem.laws.getD [] := by
  unfold Problem.law at h
  cases hlaws : problem.laws with
  | none =>
      rw [hlaws] at h
      cases h
  | some laws =>
      simp only [hlaws] at h
      split at h
      · next law' hlaw =>
          obtain rfl := Except.ok.inj h
          split at hlaw
          · cases hlaw
          · exact List.mem_of_getElem? hlaw
      · cases h

end Acceptance

section Agreement

variable [Zero S] [Add S] [Mul S]

/-- Whether an expression has the values that another one has when the noise is fixed. -/
def Expr.IsInstance (w : List S) (e e' : Expr S) : Prop :=
  ∀ (w' : Nat → S) (point : Column → S), e.eval (fun k => w.getD k 0) point = e'.eval w' point

/-- Whether rows for a noise that is variable and for one that is known agree. -/
def StageRows.AgreeAt (rows : StageRows S) (stage : Int) (noises : Nat) (w : List S) : Prop :=
  ∀ es, rows stage (.variables noises) = .ok es →
    ∃ es', rows stage (.values w) = .ok es' ∧ List.Forall₂ (Expr.IsInstance w) es es'

/-- Whether a cost for a noise that is variable and one for a noise that is known agree. -/
def StageCost.AgreesAt (cost : StageCost S) (stage : Int) (noises : Nat) (w : List S) : Prop :=
  ∀ e, cost stage (.variables noises) = .ok e →
    ∃ e', cost stage (.values w) = .ok e' ∧ Expr.IsInstance w e e'

/-- Whether a problem gives the same rows and costs for a noise that is known from the start and for
one that is put in later. -/
structure Problem.AgreesAt (problem : Problem S) (stage : Int) (noises : Nat) (w : List S) :
    Prop where
  dynamics : problem.dynamics.AgreeAt stage noises w
  equalities : problem.equalities.AgreeAt stage noises w
  inequalities : problem.inequalities.AgreeAt stage noises w
  cost : ∀ model pieces, problem.costPieces = .ok (model, pieces) → ∀ piece ∈ pieces,
    StageCost.AgreesAt piece stage noises w

end Agreement

section Formulas

variable [CommRing S]

/-- Whether a term mentions only the state and the control. -/
def Term.IsScoped (shape : Shape) : Term S → Prop
  | .weight _ => True
  | .multiple m => m.column.IsInput shape

/-- Whether two terms are of one kind, about one column, and of the same value when the noise of the
first is fixed. -/
def Term.IsInstance (w : List S) : Term S → Term S → Prop
  | .weight x, .weight x' => ∀ w', x.eval (fun k => w.getD k 0) = x'.eval w'
  | .multiple m, .multiple m' =>
    m.column = m'.column ∧ ∀ w' v, m.eval (fun k => w.getD k 0) v = m'.eval w' v
  | _, _ => False

theorem Weight.eval_timesNumber (x : Weight S) (r : S) (w : Nat → S) :
    (x.timesNumber r).eval w = x.eval w * r := by
  cases x <;> simp only [timesNumber, eval] <;> ring

theorem Weight.eval_timesCoordinate (x : Weight S) (k : Nat) (w : Nat → S) :
    (x.timesCoordinate k).eval w = x.eval w * w k := by
  cases x <;> rfl

theorem Weight.eval_timesColumn (x : Weight S) (c : Column) (w : Nat → S) (v : S) :
    (x.timesColumn c).eval w v = x.eval w * v := by
  cases x <;> rfl

omit [CommRing S] in
theorem Weight.column_timesColumn (x : Weight S) (c : Column) : (x.timesColumn c).column = c := by
  cases x <;> rfl

theorem Multiple.eval_timesNumber (m : Multiple S) (r : S) (w : Nat → S) (v : S) :
    (m.timesNumber r).eval w v = m.eval w v * r := by
  cases m <;> simp only [timesNumber, eval] <;> ring

theorem Multiple.column_timesNumber (m : Multiple S) (r : S) :
    (m.timesNumber r).column = m.column := by
  cases m <;> rfl

namespace Term

variable {w : List S} {t t' : Term S}

theorem IsInstance.timesNumber (h : IsInstance w t t') (r : S) :
    IsInstance w (t.timesNumber r) (t'.timesNumber r) := by
  cases t with
  | weight x =>
      cases t' with
      | weight x' =>
          intro w'
          rw [Weight.eval_timesNumber, Weight.eval_timesNumber, h w']
      | multiple m' => exact h
  | multiple m =>
      cases t' with
      | weight x' => exact h
      | multiple m' =>
          refine ⟨?_, fun w' v => ?_⟩
          · rw [Multiple.column_timesNumber, Multiple.column_timesNumber, h.1]
          · rw [Multiple.eval_timesNumber, Multiple.eval_timesNumber, h.2 w' v]

/-- A noise coordinate in one term is as good as its value in the other. -/
theorem IsInstance.timesCoordinate (h : IsInstance w t t') {k : Nat} {r : S} (hr : w[k]? = some r) :
    IsInstance w (t.timesCoordinate k) (t'.timesNumber r) := by
  have hget : w.getD k 0 = r := by rw [List.getD_eq_getElem?_getD, hr, Option.getD_some]
  cases t with
  | weight x =>
      cases t' with
      | weight x' =>
          intro w'
          rw [Weight.eval_timesCoordinate, Weight.eval_timesNumber, h w', hget]
      | multiple m' => exact h
  | multiple m =>
      cases t' with
      | weight x' => exact h
      | multiple m' =>
          refine ⟨(h.1.trans (m'.column_timesNumber r).symm : m.column = _), fun w' v => ?_⟩
          rw [Multiple.eval_timesNumber, ← h.2 w' v, ← hget]
          rfl

theorem IsInstance.timesColumn (h : IsInstance w t t') {c : Column} {t₁ : Term S}
    (ht : t.timesColumn c = .ok t₁) : ∃ t₁', t'.timesColumn c = .ok t₁' ∧ IsInstance w t₁ t₁' := by
  cases t with
  | weight x =>
      cases t' with
      | weight x' =>
          cases ht
          refine ⟨_, rfl, ?_, fun w' v => ?_⟩
          · rw [Weight.column_timesColumn, Weight.column_timesColumn]
          · rw [Weight.eval_timesColumn, Weight.eval_timesColumn, h w']
      | multiple m' => exact absurd h id
  | multiple m => cases ht

theorem IsInstance.eval (h : IsInstance w t t') (w' : Nat → S) (point : Column → S) :
    t.eval (fun k => w.getD k 0) point = t'.eval w' point := by
  cases t with
  | weight x =>
      cases t' with
      | weight x' => exact h w'
      | multiple m' => exact absurd h id
  | multiple m =>
      cases t' with
      | weight x' => exact absurd h id
      | multiple m' =>
          change m.eval _ (point m.column) = m'.eval w' (point m'.column)
          rw [h.1]
          exact h.2 w' _

omit [CommRing S] in
theorem IsScoped.timesColumn {shape : Shape} {c : Column} (hc : c.IsInput shape)
    (ht : t.timesColumn c = .ok t') : t'.IsScoped shape := by
  cases t with
  | weight x =>
      cases ht
      change (x.timesColumn c).column.IsInput shape
      rw [Weight.column_timesColumn]
      exact hc
  | multiple m => cases ht

theorem IsScoped.timesNumber {shape : Shape} (h : t.IsScoped shape) (r : S) :
    (t.timesNumber r).IsScoped shape := by
  cases t with
  | weight x => trivial
  | multiple m =>
      change (m.timesNumber r).column.IsInput shape
      rw [Multiple.column_timesNumber]
      exact h

end Term

variable [Scalar S] {shape : Shape} {stage : Int} {view : NoiseView S}

theorem lt_of_place? {length i : Nat} {position : Int} (h : place? length position = some i) :
    i < length := by
  unfold place? at h
  grind

namespace Factor

variable {f : Factor} {t t' t₁ : Term S}

theorem isScoped_times (h : t.IsScoped shape) (ht : f.times shape stage view t = .ok t') :
    t'.IsScoped shape := by
  cases f with
  | state position =>
      simp only [times] at ht
      split at ht
      · next hplace =>
          refine Term.IsScoped.timesColumn ?_ ht
          exact lt_of_place? hplace
      · cases ht
  | control position =>
      simp only [times] at ht
      split at ht
      · next hplace =>
          refine Term.IsScoped.timesColumn ?_ ht
          exact lt_of_place? hplace
      · cases ht
  | noise position =>
      rcases view with count | w
      · simp only [times] at ht
        split at ht
        · cases ht
          cases t with
          | weight x => trivial
          | multiple m => exact h
        · cases ht
      · simp only [times] at ht
        split at ht
        · cases ht
          exact h.timesNumber _
        · cases ht
  | stage =>
      simp only [times, bind_eq_ok, pure_eq_ok] at ht
      obtain ⟨r, -, rfl⟩ := ht
      exact h.timesNumber r

theorem isInstance_times {w : List S} (h : t.IsInstance w t')
    (ht : f.times shape stage (.variables w.length) t = .ok t₁) :
    ∃ t₁', f.times shape stage (.values w) t' = .ok t₁' ∧ t₁.IsInstance w t₁' := by
  cases f with
  | state position =>
      simp only [times] at ht ⊢
      split at ht
      · exact h.timesColumn ht
      · cases ht
  | control position =>
      simp only [times] at ht ⊢
      split at ht
      · exact h.timesColumn ht
      · cases ht
  | noise position =>
      simp only [times] at ht ⊢
      split at ht
      · next k hplace =>
          cases ht
          have hlt : k < w.length := lt_of_place? hplace
          have hget : elementAt? w position = some w[k] := by
            simp [elementAt?, hplace]
          simp only [hget]
          exact ⟨_, rfl, h.timesCoordinate (List.getElem?_eq_getElem hlt)⟩
      · cases ht
  | stage =>
      simp only [times, bind_eq_ok, pure_eq_ok] at ht ⊢
      obtain ⟨r, hr, rfl⟩ := ht
      exact ⟨_, ⟨r, hr, rfl⟩, h.timesNumber r⟩

end Factor

namespace Product

variable {p : Product} {t : Term S}

theorem isScoped_term (ht : p.term shape stage view = .ok t) : t.IsScoped shape := by
  have factors : ∀ (fs : List Factor) (t t' : Term S), t.IsScoped shape →
      fs.foldlM (fun t f => f.times shape stage view t) t = .ok t' → t'.IsScoped shape := by
    intro fs
    induction fs with
    | nil =>
        intro t t' h ht
        cases ht
        exact h
    | cons f fs ih =>
        intro t t' h ht
        simp only [List.foldlM_cons, bind_eq_ok] at ht
        obtain ⟨t₁, hf, ht⟩ := ht
        exact ih t₁ t' (Factor.isScoped_times h hf) ht
  simp only [term, bind_eq_ok] at ht
  obtain ⟨r, -, ht⟩ := ht
  exact factors p.factors (.constant r) t trivial ht

theorem isInstance_term {w : List S} (ht : p.term shape stage (.variables w.length) = .ok t) :
    ∃ t', p.term shape stage (.values w) = .ok t' ∧ t.IsInstance w t' := by
  have factors : ∀ (fs : List Factor) (t t' t₁ : Term S), t.IsInstance w t' →
      fs.foldlM (fun t f => f.times shape stage (.variables w.length) t) t = .ok t₁ →
      ∃ t₁', fs.foldlM (fun t f => f.times shape stage (.values w) t) t' = .ok t₁' ∧
        t₁.IsInstance w t₁' := by
    intro fs
    induction fs with
    | nil =>
        intro t t' t₁ h ht
        cases ht
        exact ⟨t', rfl, h⟩
    | cons f fs ih =>
        intro t t' t₁ h ht
        simp only [List.foldlM_cons, bind_eq_ok] at ht ⊢
        obtain ⟨t₂, hf, ht⟩ := ht
        obtain ⟨t₂', hf', h₂⟩ := Factor.isInstance_times h hf
        obtain ⟨t₁', ht', h₁⟩ := ih t₂ t₂' t₁ h₂ ht
        exact ⟨t₁', ⟨t₂', hf', ht'⟩, h₁⟩
  simp only [term, bind_eq_ok] at ht ⊢
  obtain ⟨r, hr, ht⟩ := ht
  obtain ⟨t', ht', h⟩ := factors p.factors (.constant r) (.constant r) t (fun _ => rfl) ht
  exact ⟨t', ⟨r, hr, ht'⟩, h⟩

end Product

/-- A formula gives an affine cost. -/
theorem Formula.isScoped_cost (f : Formula) : StageCost.IsScoped shape (f.cost (S := S) shape) := by
  intro stage view e he m hm
  obtain ⟨p, -, hp⟩ := exists_of_mem_forall₂ (mapM_eq_ok.mp he) hm
  exact Product.isScoped_term hp

omit [Scalar S] in
theorem Expr.isInstance_of_terms {w : List S} {e e' : Expr S}
    (h : List.Forall₂ (Term.IsInstance w) e e') : Expr.IsInstance w e e' := by
  intro w' point
  induction h with
  | nil => rfl
  | cons ht _ ih => rw [Expr.eval_cons, Expr.eval_cons, ht.eval w' point, ih]

/-- A formula gives the same cost whether the noise is known from the start or put in later. -/
theorem Formula.agreesAt_cost (f : Formula) (stage : Int) (w : List S) :
    StageCost.AgreesAt (f.cost shape) stage w.length w := by
  intro e he
  obtain ⟨e', he', h⟩ := mapM_of_forall_mem (fun p _ t => Product.isInstance_term) he
  exact ⟨e', he', Expr.isInstance_of_terms h⟩

namespace RowPlan

variable [LT S] [DecidableLT S]

/-- Rows given by formulas are affine. -/
theorem areScoped_rows (formulas : List Formula) :
    StageRows.AreScoped shape ((rows formulas).toRows (S := S) shape) := by
  intro stage view es hes e he
  rw [toRows] at hes
  obtain ⟨f, -, hf⟩ := exists_of_mem_forall₂ (mapM_eq_ok.mp hes) he
  exact f.isScoped_cost stage view e hf

/-- Formulas give the same rows whether the noise is known from the start or put in later. -/
theorem agreeAt_rows (formulas : List Formula) (stage : Int) (w : List S) :
    StageRows.AgreeAt ((rows formulas).toRows shape) stage w.length w := by
  intro es hes
  simp only [toRows] at hes ⊢
  exact mapM_of_forall_mem (fun f _ => f.agreesAt_cost stage w) hes

end RowPlan

end Formulas

namespace Stock

theorem mem_pieces {model model' : CostModel} {pieces : List (StageCost ℚ)}
    {piece : StageCost ℚ} (hpieces : (problem model).costPieces = .ok (model', pieces))
    (hpiece : piece ∈ pieces) : piece = price.cost shape ∨ piece = shortage.cost shape := by
  cases model with
  | linear =>
      cases hpieces
      simpa using Or.inl hpiece
  | piecewiseLinear =>
      cases hpieces
      simpa using hpiece

theorem eq_shape {model : CostModel} {s : Shape} (h : (problem model).HasShape s) : s = shape := by
  obtain ⟨states, controls⟩ := s
  obtain ⟨hstates, hcontrols⟩ := h
  cases hstates
  cases hcontrols
  rfl

theorem isAffine_problem (model : CostModel) : (problem model).IsAffine where
  dynamics s hs := by
    rw [eq_shape hs]
    exact RowPlan.areScoped_rows [leftOver]
  equalities _ _ _ _ _ h := by
    cases h
    simp
  inequalities s hs := by
    rw [eq_shape hs]
    exact RowPlan.areScoped_rows [surplus]
  cost s hs _ _ hpieces piece hpiece := by
    rw [eq_shape hs]
    rcases mem_pieces hpieces hpiece with rfl | rfl
    · exact price.isScoped_cost
    · exact shortage.isScoped_cost

theorem agreesAt_problem (model : CostModel) (stage : Int) (w : ℚ) :
    (problem model).AgreesAt stage 1 [w] where
  dynamics := RowPlan.agreeAt_rows [leftOver] stage [w]
  equalities _ h := by
    cases h
    exact ⟨[], rfl, .nil⟩
  inequalities := RowPlan.agreeAt_rows [surplus] stage [w]
  cost _ _ hpieces piece hpiece := by
    rcases mem_pieces hpieces hpiece with rfl | rfl
    · exact price.agreesAt_cost stage [w]
    · exact shortage.agreesAt_cost stage [w]

end Stock

end Bellman
