import Bellman.Program.Basic
import Bellman.Proofs.Expr
import Mathlib.Algebra.Order.Ring.Defs
import Mathlib.Logic.Function.Basic

/-!
# What the rows of a program ask

Over an ordered ring the rows of a stage are equations and inequalities between columns and values
of expressions, and the rows of the cuts keep the future cost above the cuts. A solver may take a
right-hand side from some limit on for none. Then the rows of a slot whose right-hand sides are
beyond the limit ask nothing, and those of a live slot ask what the same rows ask without slots.
-/

namespace Bellman

variable {S : Type}

/-- Whether a row belongs to a slot, so that its right-hand sides may be at the sentinel. -/
def RowName.isSlot : RowName → Bool
  | slotDynamics _ _ => true
  | slotEquality _ _ => true
  | slotInequality _ _ => true
  | slotCost _ _ => true
  | _ => false

/-- A row as it is read by a solver that takes right-hand sides of slots from a limit on for none.
-/
def Row.asRead [Neg S] [LT S] [DecidableLT S] (limit : S) (r : Row S) : Row S :=
  if r.name.isSlot then
    { r with
      lower := r.lower.filter fun l => -limit < l
      upper := r.upper.filter fun u => u < limit }
  else r

instance [LE S] [DecidableLE S] (lower upper : Option S) (s : S) :
    Decidable (Within lower upper s) :=
  inferInstanceAs (Decidable (_ ∧ _))

instance [LE S] [DecidableLE S] [Zero S] [Add S] [Mul S] (w : Nat → S) (point : Column → S)
    (r : Row S) : Decidable (r.Holds w point) :=
  inferInstanceAs (Decidable (Within _ _ _))

theorem Row.asRead_of_not_isSlot [Neg S] [LT S] [DecidableLT S] {limit : S} {r : Row S}
    (h : r.name.isSlot = false) : r.asRead limit = r := by
  rw [asRead, h, if_neg Bool.false_ne_true]

section Slots

variable [One S] [Neg S]

/-- Every property of the images of the places of a list. -/
theorem forall_mem_map_zipIdx {α β : Type} {l : List α} {f : α × Nat → β} {P : β → Prop} :
    (∀ b ∈ l.zipIdx.map f, P b) ↔ ∀ i a, l[i]? = some a → P (f (a, i)) := by
  simp only [List.forall_mem_map, Prod.forall, List.mk_mem_zipIdx_iff_getElem?]
  exact forall_comm

theorem forall_getElem?_iff {α : Type} {l : List α} {P : α → Prop} :
    (∀ (i : Nat) (a : α), l[i]? = some a → P a) ↔ ∀ a ∈ l, P a := by
  constructor
  · intro h a ha
    obtain ⟨i, hi⟩ := List.mem_iff_getElem?.mp ha
    exact h i a hi
  · intro h i a hi
    exact h a (List.mem_of_getElem? hi)

/-- Every property of what the places of a list give together. -/
theorem forall_mem_flatMap_zipIdx {α β : Type} {l : List α} {f : Nat → α → List β}
    {P : β → Prop} :
    (∀ b ∈ l.zipIdx.flatMap (fun (a, i) => f i a), P b) ↔
      ∀ (i : Nat) (a : α), l[i]? = some a → ∀ b ∈ f i a, P b := by
  simp only [List.forall_mem_flatMap, Prod.forall, List.mk_mem_zipIdx_iff_getElem?]
  exact forall_comm

namespace NoiseSlot

/-- The right-hand sides for the rows of a slot that are all at the same two values. -/
def sidesAt (lower upper : S) (s : NoiseSlot S) : SlotSides S where
  dynamicsLower := List.replicate s.dynamics.length lower
  dynamicsUpper := List.replicate s.dynamics.length upper
  equalityLower := List.replicate s.equalities.length lower
  equalityUpper := List.replicate s.equalities.length upper
  inequalityUpper := List.replicate s.inequalities.length upper
  costLower := List.replicate s.pieces.length lower

/-- The rows of slot `k`. -/
def rows (k : Nat) (s : NoiseSlot S) : List (Row S) :=
  s.dynamicsRows k ++ s.equalityRows k ++ s.inequalityRows k ++ s.costRows k

theorem forall_mem_allRows {slots : List (NoiseSlot S)} {P : Row S → Prop} :
    (∀ r ∈ allRows slots, P r) ↔
      ∀ (k : Nat) (s : NoiseSlot S), slots[k]? = some s → ∀ r ∈ s.rows k, P r := by
  simp only [allRows, rows, List.forall_mem_append, forall_mem_flatMap_zipIdx]
  constructor
  · rintro ⟨⟨⟨hd, he⟩, hi⟩, hc⟩ k s hs
    exact ⟨⟨⟨hd k s hs, he k s hs⟩, hi k s hs⟩, hc k s hs⟩
  · intro h
    exact ⟨⟨⟨fun k s hs => (h k s hs).1.1.1, fun k s hs => (h k s hs).1.1.2⟩,
      fun k s hs => (h k s hs).1.2⟩, fun k s hs => (h k s hs).2⟩

variable {s : NoiseSlot S} {lower upper : S} {k : Nat} {P : Row S → Prop}

omit [One S] [Neg S] in
theorem zip_replicate_length {α β : Type} (xs : List α) (b : β) :
    xs.zip (List.replicate xs.length b) = xs.map fun x => (x, b) := by
  induction xs with
  | nil => rfl
  | cons x xs ih =>
      rw [List.length_cons, List.replicate_succ, List.zip_cons_cons, ih, List.map_cons]

theorem forall_mem_dynamicsRows (h : s.sides = s.sidesAt lower upper) :
    (∀ r ∈ s.dynamicsRows k, P r) ↔ ∀ (i : Nat) (e : Expr S), s.dynamics[i]? = some e →
      P ⟨.slotDynamics k i, .ofColumn (.nextState i) :: e.neg, some lower, some upper⟩ := by
  simp only [dynamicsRows, h, sidesAt, List.zip_replicate', zip_replicate_length,
    forall_mem_map_zipIdx, List.getElem?_map, Option.map_eq_some_iff, forall_exists_index, and_imp,
    forall_apply_eq_imp_iff₂]

omit [One S] [Neg S] in
theorem forall_mem_equalityRows (h : s.sides = s.sidesAt lower upper) :
    (∀ r ∈ s.equalityRows k, P r) ↔ ∀ (j : Nat) (e : Expr S), s.equalities[j]? = some e →
      P ⟨.slotEquality k j, e, some lower, some upper⟩ := by
  simp only [equalityRows, h, sidesAt, List.zip_replicate', zip_replicate_length,
    forall_mem_map_zipIdx, List.getElem?_map, Option.map_eq_some_iff, forall_exists_index, and_imp,
    forall_apply_eq_imp_iff₂]

omit [One S] [Neg S] in
theorem forall_mem_inequalityRows (h : s.sides = s.sidesAt lower upper) :
    (∀ r ∈ s.inequalityRows k, P r) ↔ ∀ (j : Nat) (e : Expr S), s.inequalities[j]? = some e →
      P ⟨.slotInequality k j, e, none, some upper⟩ := by
  simp only [inequalityRows, h, sidesAt, zip_replicate_length,
    forall_mem_map_zipIdx, List.getElem?_map, Option.map_eq_some_iff, forall_exists_index, and_imp,
    forall_apply_eq_imp_iff₂]

theorem forall_mem_costRows (h : s.sides = s.sidesAt lower upper) :
    (∀ r ∈ s.costRows k, P r) ↔ ∀ (n : Nat) (e : Expr S), s.pieces[n]? = some e →
      P ⟨.slotCost k n, .ofColumn .cost :: e.neg, some lower, none⟩ := by
  simp only [costRows, h, sidesAt, zip_replicate_length,
    forall_mem_map_zipIdx, List.getElem?_map, Option.map_eq_some_iff, forall_exists_index, and_imp,
    forall_apply_eq_imp_iff₂]

end NoiseSlot

end Slots

section Ranges

variable [LE S] {l u s : S}

@[simp] theorem within_none_none : Within none none s := by
  simp [Within]

@[simp] theorem within_some_some : Within (some l) (some u) s ↔ l ≤ s ∧ s ≤ u := by
  simp [Within]

@[simp] theorem within_some_none : Within (some l) none s ↔ l ≤ s := by
  simp [Within]

@[simp] theorem within_none_some : Within none (some u) s ↔ s ≤ u := by
  simp [Within]

end Ranges

variable [CommRing S] [LinearOrder S]

/-- The pieces of a cost that a column bounds from above. -/
def DirectCost.bounded : DirectCost S → List (Expr S)
  | single _ => []
  | largest pieces => pieces

/-- What the rows of a stage ask of a point, whichever way the noise enters: the state that follows
is given, equalities are zero, inequalities are at most zero, and some pieces of the cost are at
most the cost. -/
structure Obeys (dynamics equalities inequalities pieces : List (Expr S)) (w : Nat → S)
    (point : Column → S) : Prop where
  dynamics : ∀ (i : Nat) (e : Expr S), dynamics[i]? = some e →
    point (.nextState i) = e.eval w point
  equalities : ∀ e ∈ equalities, e.eval w point = 0
  inequalities : ∀ e ∈ inequalities, e.eval w point ≤ 0
  pieces : ∀ e ∈ pieces, e.eval w point ≤ point .cost

/-- What is asked of a point depends on the expressions by their values alone. -/
theorem obeys_iff_values {dynamics equalities inequalities pieces : List (Expr S)} {w : Nat → S}
    {point : Column → S} :
    Obeys dynamics equalities inequalities pieces w point ↔
      (∀ (i : Nat) (s : S), (dynamics.map (Expr.eval w point))[i]? = some s →
        point (.nextState i) = s) ∧
      (∀ s ∈ equalities.map (Expr.eval w point), s = 0) ∧
      (∀ s ∈ inequalities.map (Expr.eval w point), s ≤ 0) ∧
      ∀ s ∈ pieces.map (Expr.eval w point), s ≤ point .cost := by
  simp only [List.getElem?_map, Option.map_eq_some_iff, forall_exists_index, and_imp,
    forall_apply_eq_imp_iff₂, List.forall_mem_map]
  exact ⟨fun ⟨hd, he, hi, hp⟩ => ⟨hd, he, hi, hp⟩, fun ⟨hd, he, hi, hp⟩ => ⟨hd, he, hi, hp⟩⟩

/-- Scoped rows do not look at the cost, so another cost has only to be above the pieces. -/
theorem obeys_update_iff {dynamics equalities inequalities pieces : List (Expr S)} {w : Nat → S}
    {point : Column → S} {shape : Shape} (hdynamics : ∀ e ∈ dynamics, e.IsScoped shape)
    (hequalities : ∀ e ∈ equalities, e.IsScoped shape)
    (hinequalities : ∀ e ∈ inequalities, e.IsScoped shape)
    (hpieces : ∀ e ∈ pieces, e.IsScoped shape) (cost : S) :
    Obeys dynamics equalities inequalities pieces w (Function.update point .cost cost) ↔
      Obeys dynamics equalities inequalities [] w point ∧
        ∀ e ∈ pieces, e.eval w point ≤ cost := by
  have same : ∀ es : List (Expr S), (∀ e ∈ es, e.IsScoped shape) →
      es.map (Expr.eval w (Function.update point .cost cost)) = es.map (Expr.eval w point) := by
    intro es hes
    refine List.map_congr_left fun e he => (hes e he).eval_congr fun c hc => ?_
    exact Function.update_of_ne (by rintro rfl; exact hc) _ _
  simp only [obeys_iff_values, same _ hdynamics, same _ hequalities, same _ hinequalities,
    same _ hpieces, Function.update_self, List.map_nil, List.not_mem_nil, false_implies,
    implies_true, and_true, and_assoc, List.forall_mem_map]
  simp

section Semantics

variable {w : Nat → S} {point : Column → S}

omit [CommRing S] in
theorem within_iff_eq {a s : S} : Within (some a) (some a) s ↔ s = a :=
  within_some_some.trans (and_comm.trans le_antisymm_iff.symm)

theorem Row.holds_mk {name : RowName} {e : Expr S} {lower upper : Option S} :
    (⟨name, e, lower, upper⟩ : Row S).Holds w point ↔ Within lower upper (e.eval w point) :=
  Iff.rfl

namespace DirectRows

theorem holds_equalRow {name : RowName} {c : Column} {e : Expr S} :
    (equalRow name c e).Holds w point ↔ point c = e.eval w point := by
  unfold equalRow Row.Holds
  split
  · next h =>
      simp only [within_iff_eq, Expr.eval_cons, Expr.eval_nil, Term.eval_ofColumn, add_zero,
        Expr.constantSum_eq_eval w point h]
  · simp only [within_iff_eq, Expr.eval_cons, Expr.eval_neg, Term.eval_ofColumn, add_neg_eq_zero]

variable [IsStrictOrderedRing S]

theorem holds_aboveRow {name : RowName} {c : Column} {e : Expr S} :
    (aboveRow name c e).Holds w point ↔ e.eval w point ≤ point c := by
  unfold aboveRow Row.Holds
  split
  · next h =>
      simp only [within_some_none, Expr.eval_cons, Expr.eval_nil, Term.eval_ofColumn, add_zero,
        Expr.constantSum_eq_eval w point h]
  · simp only [within_none_some, Expr.eval_append, Expr.eval_cons, Expr.eval_nil, Term.eval_neg,
      Term.eval_ofColumn, add_zero, ← sub_eq_add_neg, sub_nonpos]

/-- The column for the cost, if there is one, is above all pieces. -/
theorem holds_costRows_iff {cost : DirectCost S} :
    (∀ row ∈ (match cost with
      | .single _ => []
      | .largest pieces => pieces.zipIdx.map fun (e, n) => aboveRow (.costPiece n) .cost e :
        List (Row S)), row.Holds w point) ↔ ∀ e ∈ cost.bounded, e.eval w point ≤ point .cost := by
  cases cost with
  | single e => simp only [List.not_mem_nil, false_implies, implies_true, DirectCost.bounded]
  | largest pieces =>
      simp only [forall_mem_map_zipIdx, holds_aboveRow, DirectCost.bounded, forall_getElem?_iff]

/-- The rows in which the noise is a variable ask what the problem says, of the cost only if there
is a column for it. -/
theorem holds_rows_iff {r : DirectRows S} :
    (∀ row ∈ r.rows, row.Holds w point) ↔
      Obeys r.dynamics r.equalities r.inequalities r.cost.bounded w point := by
  obtain ⟨dynamics, equalities, inequalities, cost⟩ := r
  simp only [rows, List.forall_mem_append, forall_mem_map_zipIdx, holds_equalRow,
    Row.holds_mk, within_iff_eq, within_none_some, forall_getElem?_iff]
  constructor
  · rintro ⟨⟨⟨hd, he⟩, hi⟩, hc⟩
    exact ⟨hd, he, hi, holds_costRows_iff.mp hc⟩
  · rintro ⟨hd, he, hi, hc⟩
    exact ⟨⟨⟨hd, he⟩, hi⟩, holds_costRows_iff.mpr hc⟩

end DirectRows

namespace NoiseSlot

variable [IsStrictOrderedRing S] {s : NoiseSlot S} {limit : S} {k : Nat}

/-- The rows of a live slot ask what the problem says for the value of the noise. -/
theorem holds_rows_iff (k : Nat) (w : Nat → S) (point : Column → S) (hlimit : 0 < limit)
    (h : s.sides = s.sidesAt 0 0) :
    (∀ r ∈ s.rows k, (r.asRead limit).Holds w point) ↔
      Obeys s.dynamics s.equalities s.inequalities s.pieces w point := by
  have hlower : (some (0 : S)).filter (fun l => -limit < l) = some 0 := by
    simp [Option.filter_some, hlimit]
  have hupper : (some (0 : S)).filter (fun u => u < limit) = some 0 := by
    simp [Option.filter_some, hlimit]
  simp only [rows, List.forall_mem_append, forall_mem_dynamicsRows h, forall_mem_equalityRows h,
    forall_mem_inequalityRows h, forall_mem_costRows h, Row.asRead, RowName.isSlot, if_true, hlower,
    hupper, Option.filter_none, Row.holds_mk, within_iff_eq, within_none_some, within_some_none,
    Expr.eval_cons, Expr.eval_neg, Term.eval_ofColumn, ← sub_eq_add_neg, sub_eq_zero, sub_nonneg,
    forall_getElem?_iff]
  constructor
  · rintro ⟨⟨⟨hd, he⟩, hi⟩, hc⟩
    exact ⟨hd, he, hi, hc⟩
  · rintro ⟨hd, he, hi, hc⟩
    exact ⟨⟨⟨hd, he⟩, hi⟩, hc⟩

/-- The rows of a slot that is held open by a sentinel beyond the limit ask nothing. -/
theorem holds_rows_of_open {infinity : S} (hlimit : limit ≤ infinity)
    (h : s.sides = s.sidesAt (-infinity) infinity) :
    ∀ r ∈ s.rows k, (r.asRead limit).Holds w point := by
  have hlower : (some (-infinity)).filter (fun l => -limit < l) = none := by
    simp [Option.filter_some, hlimit]
  have hupper : (some infinity).filter (fun u => u < limit) = none := by
    simp [Option.filter_some, hlimit]
  simp only [rows, List.forall_mem_append, forall_mem_dynamicsRows h, forall_mem_equalityRows h,
    forall_mem_inequalityRows h, forall_mem_costRows h, Row.asRead, RowName.isSlot, if_true, hlower,
    hupper, Option.filter_none, Row.holds_mk, within_none_none, implies_true, and_self]

/-- A slot that is switched on. -/
def switchedOn (s : NoiseSlot S) : NoiseSlot S :=
  { s with sides := s.sides.live }

omit [LinearOrder S] [IsStrictOrderedRing S] in
theorem sides_switchedOn {lower upper : S} (h : s.sides = s.sidesAt lower upper) :
    s.switchedOn.sides = s.switchedOn.sidesAt 0 0 := by
  simp only [switchedOn, h, SlotSides.live, SlotSides.replace, sidesAt, List.map_replicate]

/-- When one slot is live, the rows ask what the live slot asks, and what the rows of the others do.
-/
theorem holds_allRows_modify_iff {slots : List (NoiseSlot S)} {infinity : S}
    (hk : slots[k]? = some s) (hopen : s.sides = s.sidesAt (-infinity) infinity)
    (hlimit : 0 < limit) :
    (∀ r ∈ allRows (slots.modify k switchedOn), (r.asRead limit).Holds w point) ↔
      Obeys s.dynamics s.equalities s.inequalities s.pieces w point ∧
        ∀ j t, j ≠ k → slots[j]? = some t → ∀ r ∈ t.rows j, (r.asRead limit).Holds w point := by
  have hlive := holds_rows_iff k w point hlimit (sides_switchedOn hopen)
  rw [forall_mem_allRows]
  constructor
  · intro h
    refine ⟨hlive.mp (h k s.switchedOn ?_), fun j t hj ht => h j t ?_⟩
    · simp [hk]
    · rw [List.getElem?_modify_ne _ _ (Ne.symm hj), ht]
  · rintro ⟨hobeys, hothers⟩ j t ht
    rw [List.getElem?_modify] at ht
    by_cases hj : k = j
    · subst hj
      simp only [hk, if_true, Option.map_eq_map, Option.map_some, Option.some.injEq] at ht
      subst ht
      exact hlive.mpr hobeys
    · simp only [hj, if_false, id_map'] at ht
      exact hothers j t (Ne.symm hj) ht

/-- When one slot is live and all others are held open, the rows ask what the live slot asks. -/
theorem holds_allRows_iff {slots : List (NoiseSlot S)} {infinity : S} (hk : slots[k]? = some s)
    (hopen : ∀ s ∈ slots, s.sides = s.sidesAt (-infinity) infinity) (hlimit : 0 < limit)
    (hinfinity : limit ≤ infinity) :
    (∀ r ∈ allRows (slots.modify k switchedOn), (r.asRead limit).Holds w point) ↔
      Obeys s.dynamics s.equalities s.inequalities s.pieces w point := by
  rw [holds_allRows_modify_iff hk (hopen s (List.mem_of_getElem? hk)) hlimit]
  exact and_iff_left fun j t _ ht =>
    holds_rows_of_open hinfinity (hopen t (List.mem_of_getElem? ht))

end NoiseSlot

end Semantics

end Bellman
