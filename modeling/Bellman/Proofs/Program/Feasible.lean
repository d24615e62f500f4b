import Bellman.Proofs.Program.Retarget
import Bellman.Proofs.Program.Rows

/-!
# Feasible points

A point is feasible for a program if it keeps to the boxes and every row holds. In exact arithmetic
this comes apart into what does not depend on the noise, boxes, state and cuts, and into what the
problem says for the noise. Programs of both kinds are taken apart in the same way, slotted ones as
they are read by a solver for which a right-hand side may be as good as absent.
-/

namespace Bellman

open Data

variable {S : Type} [Scalar S] [CommRing S] [LinearOrder S]

namespace StageProgram

/-- Whether all bounds of a program are usable and a point keeps to the box of every column. -/
def KeepsToBoxes (p : StageProgram S) (point : Column → S) : Prop :=
  ∃ columns, p.columns = .ok columns ∧ ∀ cb ∈ columns, Within cb.2.lower cb.2.upper (point cb.1)

/-- Whether a point is feasible for a solver that takes right-hand sides of slots from a limit on
for none. -/
def IsFeasibleFor (limit : S) (p : StageProgram S) (point : Column → S) : Prop :=
  p.KeepsToBoxes point ∧ ∀ r ∈ p.rows, (r.asRead limit).Holds p.noiseAt point

/-- What a program asks of a point whatever the noise is: boxes, the state, and the cuts. -/
structure Frames (p : StageProgram S) (state : List S) (point : Column → S) : Prop where
  boxes : p.KeepsToBoxes point
  state : ∀ (i : Nat) (x : S), state[i]? = some x → point (.state i) = x
  cuts : ∀ c ∈ p.cuts,
    c.evaluate ((List.range c.dim).map fun i => point (p.cutColumn i)) ≤ point .future

variable {p : StageProgram S} {point : Column → S} {w : Nat → S} {state : List S}

/-- The columns of a program whose declared boxes are known. -/
def columnsOf (p : StageProgram S) (stateBoxes controlBoxes : List (Box S)) :
    List (Column × Box S) :=
  (stateBoxes.zipIdx.map fun (b, i) => (.state i, b)) ++
    (controlBoxes.zipIdx.map fun (b, j) => (.control j, b)) ++
    (stateBoxes.zipIdx.map fun (b, i) => (.nextState i, b)) ++
    [(.future, ⟨some p.futureLower, none⟩)] ++
    (if p.body.hasCost then [(.cost, ⟨none, none⟩)] else [])

/-- In exact arithmetic there are no infinities, so the bound of the future cost is always usable.
-/
theorem columns_eq_ok_iff {columns : List (Column × Box S)} :
    p.columns = .ok columns ↔ ∃ stateBoxes controlBoxes : List (Box S),
      p.stateBounds.mapM DeclaredBounds.box = .ok stateBoxes ∧
      p.controlBounds.mapM DeclaredBounds.box = .ok controlBoxes ∧
      p.columnsOf stateBoxes controlBoxes = columns := by
  have hfuture : lowerBound p.futureLower = .ok (some p.futureLower) := by
    simp only [lowerBound, isFinite, sub_self, le_refl, decide_true, if_true]
  simp only [StageProgram.columns, bind_eq_ok, pure_eq_ok, hfuture, Except.ok.injEq,
    exists_eq_left', columnsOf]
  constructor
  · rintro ⟨stateBoxes, hs, controlBoxes, hc, h⟩
    exact ⟨stateBoxes, controlBoxes, hs, hc, h⟩
  · rintro ⟨stateBoxes, controlBoxes, hs, hc, h⟩
    exact ⟨stateBoxes, hs, controlBoxes, hc, h⟩

/-- Whether a program has a column. -/
def HasColumn (p : StageProgram S) : Column → Prop
  | .state i => i < p.stateBounds.length
  | .control j => j < p.controlBounds.length
  | .nextState i => i < p.stateBounds.length
  | .future => True
  | .cost => p.body.hasCost = true

omit [Scalar S] [CommRing S] [LinearOrder S] in
theorem mem_map_fst_zipIdx (column : Nat → Column) {boxes : List (Box S)} {i : Nat}
    (hi : i < boxes.length) :
    column i ∈ (boxes.zipIdx.map fun (b, i) => (column i, b)).map Prod.fst := by
  refine List.mem_map.mpr ⟨(column i, boxes[i]), List.mem_map.mpr ⟨(boxes[i], i), ?_, rfl⟩, rfl⟩
  exact List.mk_mem_zipIdx_iff_getElem?.mpr (List.getElem?_eq_getElem hi)

/-- Every column of a program is listed. -/
theorem HasColumn.mem_columns {columns : List (Column × Box S)} (hcolumns : p.columns = .ok columns)
    {c : Column} (h : p.HasColumn c) : c ∈ columns.map Prod.fst := by
  obtain ⟨stateBoxes, controlBoxes, hs, hc, rfl⟩ := columns_eq_ok_iff.mp hcolumns
  have hstates := length_of_mapM hs
  have hcontrols := length_of_mapM hc
  unfold columnsOf
  simp only [List.map_append, List.mem_append]
  cases c with
  | state i => exact .inl (.inl (.inl (.inl (mem_map_fst_zipIdx .state (hstates ▸ h)))))
  | control j => exact .inl (.inl (.inl (.inr (mem_map_fst_zipIdx .control (hcontrols ▸ h)))))
  | nextState i => exact .inl (.inl (.inr (mem_map_fst_zipIdx .nextState (hstates ▸ h))))
  | future => exact .inl (.inr (List.mem_singleton.mpr rfl))
  | cost =>
      have hcost : p.body.hasCost = true := h
      refine .inr ?_
      rw [if_pos hcost]
      exact List.mem_singleton.mpr rfl

omit [Scalar S] [CommRing S] in
theorem within_columnsOf_iff {stateBoxes controlBoxes : List (Box S)} :
    (∀ cb ∈ p.columnsOf stateBoxes controlBoxes, Within cb.2.lower cb.2.upper (point cb.1)) ↔
      (∀ (i : Nat) (b : Box S), stateBoxes[i]? = some b →
        Within b.lower b.upper (point (.state i)) ∧
          Within b.lower b.upper (point (.nextState i))) ∧
      (∀ (j : Nat) (b : Box S), controlBoxes[j]? = some b →
        Within b.lower b.upper (point (.control j))) ∧
      p.futureLower ≤ point .future := by
  have hcost : ∀ cb ∈ (if p.body.hasCost then [(Column.cost, (⟨none, none⟩ : Box S))] else []),
      Within cb.2.lower cb.2.upper (point cb.1) := by
    split <;> simp
  simp only [columnsOf, List.forall_mem_append, forall_mem_map_zipIdx, List.forall_mem_singleton,
    within_some_none]
  constructor
  · rintro ⟨⟨⟨⟨hs, hc⟩, hn⟩, hf⟩, -⟩
    exact ⟨fun i b hb => ⟨hs i b hb, hn i b hb⟩, hc, hf⟩
  · rintro ⟨hs, hc, hf⟩
    exact ⟨⟨⟨⟨fun i b hb => (hs i b hb).1, hc⟩, fun i b hb => (hs i b hb).2⟩, hf⟩, hcost⟩

/-- A point keeps to the boxes if states and controls keep to the declared ones, and the future cost
is not below its least value. -/
theorem keepsToBoxes_iff :
    p.KeepsToBoxes point ↔ ∃ stateBoxes controlBoxes : List (Box S),
      p.stateBounds.mapM DeclaredBounds.box = .ok stateBoxes ∧
      p.controlBounds.mapM DeclaredBounds.box = .ok controlBoxes ∧
      (∀ (i : Nat) (b : Box S), stateBoxes[i]? = some b →
        Within b.lower b.upper (point (.state i)) ∧
          Within b.lower b.upper (point (.nextState i))) ∧
      (∀ (j : Nat) (b : Box S), controlBoxes[j]? = some b →
        Within b.lower b.upper (point (.control j))) ∧
      p.futureLower ≤ point .future := by
  unfold KeepsToBoxes
  constructor
  · rintro ⟨_, hcolumns, h⟩
    obtain ⟨stateBoxes, controlBoxes, hs, hc, rfl⟩ := columns_eq_ok_iff.mp hcolumns
    exact ⟨stateBoxes, controlBoxes, hs, hc, within_columnsOf_iff.mp h⟩
  · rintro ⟨stateBoxes, controlBoxes, hs, hc, h⟩
    exact ⟨_, columns_eq_ok_iff.mpr ⟨stateBoxes, controlBoxes, hs, hc, rfl⟩,
      within_columnsOf_iff.mpr h⟩

omit [Scalar S] in
theorem holds_stateRows_setState :
    (∀ r ∈ (p.setState state).stateRows, r.Holds w point) ↔
      ∀ (i : Nat) (x : S), state[i]? = some x → point (.state i) = x := by
  simp only [stateRows, setState, forall_mem_map_zipIdx, List.getElem?_map, Option.map_eq_some_iff,
    forall_exists_index, and_imp, forall_apply_eq_imp_iff₂, Row.holds_mk, within_iff_eq,
    Expr.eval_cons, Expr.eval_nil, Term.eval_ofColumn, add_zero]

omit [Scalar S] [LinearOrder S] in
theorem eval_slopes (slopes : List S) (column : Nat → Column) :
    Expr.eval w point (slopes.zipIdx.map fun (s, i) => Term.single s (column i)) =
      dot slopes ((List.range slopes.length).map fun i => point (column i)) := by
  simp only [Expr.eval, dot, List.zipIdx_eq_zip_range', ← List.range_eq_range',
    List.zipWith_map_right, List.map_map, Function.comp_def, Term.eval_single]
  rw [← List.map_uncurry_zip_eq_zipWith]
  rfl

variable [IsStrictOrderedRing S]

omit [Scalar S] in
/-- A cut row keeps the future cost above the cut at the state the cuts are written over. -/
theorem holds_cutRow {n : Nat} {c : Cut S} :
    (p.cutRow n c).Holds w point ↔
      c.evaluate ((List.range c.dim).map fun i => point (p.cutColumn i)) ≤ point .future := by
  simp only [cutRow, Row.holds_mk, within_none_some, Expr.eval_append, Expr.eval_cons,
    Expr.eval_nil, Term.eval_constant, Term.eval_neg, Term.eval_ofColumn, eval_slopes, add_zero,
    List.cons_append, Cut.evaluate, Cut.dim, ← sub_eq_add_neg, ← add_sub_assoc, sub_nonpos]

omit [Scalar S] in
theorem holds_cutRows :
    (∀ r ∈ p.cutRows, r.Holds w point) ↔ ∀ c ∈ p.cuts,
      c.evaluate ((List.range c.dim).map fun i => point (p.cutColumn i)) ≤ point .future := by
  simp only [cutRows, forall_mem_map_zipIdx, holds_cutRow, forall_getElem?_iff]

omit [Scalar S] in
/-- However the rows of slots are read, the rows of a program come apart into those of the state, of
the body and of the cuts. -/
theorem holds_rows_iff (p : StageProgram S) (w : Nat → S) (point : Column → S) {f : Row S → Row S}
    (hf : ∀ r : Row S, r.name.isSlot = false → f r = r) :
    (∀ r ∈ p.rows, (f r).Holds w point) ↔
      (∀ r ∈ p.stateRows, r.Holds w point) ∧ (∀ r ∈ p.body.rows, (f r).Holds w point) ∧
      ∀ c ∈ p.cuts,
        c.evaluate ((List.range c.dim).map fun i => point (p.cutColumn i)) ≤ point .future := by
  have stateRows : (∀ r ∈ p.stateRows, (f r).Holds w point) ↔
      ∀ r ∈ p.stateRows, r.Holds w point := by
    refine forall₂_congr fun r hr => ?_
    have hslot : r.name.isSlot = false := by
      revert r
      simp only [StageProgram.stateRows, forall_mem_map_zipIdx, RowName.isSlot, implies_true]
    rw [hf r hslot]
  have cutRows : (∀ r ∈ p.cutRows, (f r).Holds w point) ↔
      ∀ r ∈ p.cutRows, r.Holds w point := by
    refine forall₂_congr fun r hr => ?_
    have hslot : r.name.isSlot = false := by
      revert r
      simp only [StageProgram.cutRows, forall_mem_map_zipIdx, cutRow, RowName.isSlot, implies_true]
    rw [hf r hslot]
  simp only [rows, List.forall_mem_append, stateRows, cutRows, holds_cutRows, and_assoc]

omit [Scalar S] in
/-- The rows of a targeted program say which state it is targeted to. -/
theorem holds_rows_setState (p : StageProgram S) (state : List S) (w : Nat → S)
    (point : Column → S) {f : Row S → Row S}
    (hf : ∀ r : Row S, r.name.isSlot = false → f r = r) :
    (∀ r ∈ (p.setState state).rows, (f r).Holds w point) ↔
      (∀ (i : Nat) (x : S), state[i]? = some x → point (.state i) = x) ∧
      (∀ r ∈ p.body.rows, (f r).Holds w point) ∧
      ∀ c ∈ p.cuts,
        c.evaluate ((List.range c.dim).map fun i => point (p.cutColumn i)) ≤ point .future := by
  rw [← holds_stateRows_setState (p := p) (w := w)]
  exact holds_rows_iff (p.setState state) w point hf

theorem isFeasible_setState_iff :
    (p.setState state).IsFeasible point ↔
      p.Frames state point ∧ ∀ r ∈ p.body.rows, r.Holds p.noiseAt point := by
  have hrows := holds_rows_setState p state p.noiseAt point (f := id) fun _ _ => rfl
  constructor
  · rintro ⟨hboxes, h⟩
    obtain ⟨hstate, hbody, hcuts⟩ := hrows.mp h
    exact ⟨⟨hboxes, hstate, hcuts⟩, hbody⟩
  · rintro ⟨⟨hboxes, hstate, hcuts⟩, hbody⟩
    exact ⟨hboxes, hrows.mpr ⟨hstate, hbody, hcuts⟩⟩

theorem isFeasibleFor_setState_iff {limit : S} :
    (p.setState state).IsFeasibleFor limit point ↔
      p.Frames state point ∧ ∀ r ∈ p.body.rows, (r.asRead limit).Holds p.noiseAt point := by
  have hrows := holds_rows_setState p state p.noiseAt point (f := Row.asRead limit)
    fun _ => Row.asRead_of_not_isSlot
  constructor
  · rintro ⟨hboxes, h⟩
    obtain ⟨hstate, hbody, hcuts⟩ := hrows.mp h
    exact ⟨⟨hboxes, hstate, hcuts⟩, hbody⟩
  · rintro ⟨⟨hboxes, hstate, hcuts⟩, hbody⟩
    exact ⟨hboxes, hrows.mpr ⟨hstate, hbody, hcuts⟩⟩

/-- Feasible points of a program in which the noise is a variable. -/
theorem isFeasible_setNoise_iff {r : DirectRows S} (hbody : p.body = .direct r) (noise : List S) :
    ((p.setState state).setNoise noise).IsFeasible point ↔
      p.Frames state point ∧ Obeys r.dynamics r.equalities r.inequalities r.cost.bounded
        (fun k => noise.getD k 0) point := by
  have hrows : (∀ row ∈ (p.setNoise noise).body.rows, row.Holds (p.setNoise noise).noiseAt point) ↔
      Obeys r.dynamics r.equalities r.inequalities r.cost.bounded (fun k => noise.getD k 0)
        point := by
    refine Iff.trans ?_ DirectRows.holds_rows_iff
    change (∀ row ∈ p.body.rows, _) ↔ _
    rw [hbody]
    rfl
  have hframes : (p.setNoise noise).Frames state point ↔ p.Frames state point :=
    ⟨fun h => ⟨h.boxes, h.state, h.cuts⟩, fun h => ⟨h.boxes, h.state, h.cuts⟩⟩
  rw [← hframes, ← hrows]
  exact isFeasible_setState_iff (p := p.setNoise noise)

omit [IsStrictOrderedRing S] in
/-- What does not depend on the noise is the same for programs with the same boxes and cuts, and at
points that differ in the cost of the stage alone. -/
theorem Frames.congr {q : StageProgram S} {point' : Column → S} (h : p.Frames state point)
    (hstates : q.stateBounds = p.stateBounds) (hcontrols : q.controlBounds = p.controlBounds)
    (hfuture : q.futureLower = p.futureLower) (hvariable : q.cutVariable = p.cutVariable)
    (hcuts : q.cuts = p.cuts) (hpoint : ∀ c ≠ Column.cost, point' c = point c) :
    q.Frames state point' := by
  have hcolumn : ∀ i, point' (q.cutColumn i) = point (p.cutColumn i) := by
    intro i
    simp only [cutColumn, hvariable]
    split <;> exact hpoint _ (by simp)
  refine ⟨?_, ?_, ?_⟩
  · have hboxes := h.boxes
    rw [keepsToBoxes_iff] at hboxes ⊢
    rw [hstates, hcontrols, hfuture]
    simpa only [hpoint (.state _) (by simp), hpoint (.nextState _) (by simp),
      hpoint (.control _) (by simp), hpoint .future (by simp)] using hboxes
  · intro i x hx
    rw [hpoint _ (by simp)]
    exact h.state i x hx
  · intro c hc
    rw [hcuts] at hc
    simp only [hcolumn, hpoint .future (by simp)]
    exact h.cuts c hc

omit [IsStrictOrderedRing S] in
/-- What does not depend on the noise does not depend on the cost of the stage, either. -/
theorem frames_update_iff {cost : S} :
    p.Frames state (Function.update point .cost cost) ↔ p.Frames state point := by
  constructor
  · intro h
    refine h.congr rfl rfl rfl rfl rfl fun c hc => ?_
    rw [Function.update_of_ne hc]
  · intro h
    refine h.congr rfl rfl rfl rfl rfl fun c hc => ?_
    rw [Function.update_of_ne hc]

omit [Scalar S] [LinearOrder S] [IsStrictOrderedRing S] in
theorem value_eq (p : StageProgram S) (point : Column → S) :
    p.value point = p.body.cost.eval p.noiseAt point + point .future := by
  simp only [value, objective, Expr.eval_append, Expr.eval_cons, Expr.eval_nil, Term.eval_ofColumn,
    add_zero]

omit [Scalar S] [LinearOrder S] [IsStrictOrderedRing S] in
/-- With a column for the cost, the objective is that column and the future cost. -/
theorem value_of_hasCost (h : p.body.hasCost = true) (point : Column → S) :
    p.value point = point .cost + point .future := by
  have hcost : p.body.cost = [.ofColumn .cost] := by
    unfold Body.cost
    unfold Body.hasCost at h
    split at h
    · cases h
    · rfl
  rw [value_eq, hcost, Expr.eval_cons, Expr.eval_nil, Term.eval_ofColumn, add_zero]

omit [Scalar S] [LinearOrder S] [IsStrictOrderedRing S] in
/-- A targeted program with a slot switched on is one with another body, targeted. -/
theorem setState_switchOn_of_slotted {slots : List (NoiseSlot S)} {k : Nat}
    (hbody : p.body = .slotted slots) :
    (p.setState state).switchOn k =
      ({ p with
        body := .slotted (slots.modify k NoiseSlot.switchedOn)
        live := some k } : StageProgram S).setState state := by
  simp only [switchOn, modifySides, setState, hbody]
  rfl

/-- Feasible points of a program with slots, one of which is live. -/
theorem isFeasibleFor_switchOn_iff {slots : List (NoiseSlot S)} {slot : NoiseSlot S} {k : Nat}
    {limit : S} (hbody : p.body = .slotted slots) (hk : slots[k]? = some slot)
    (hopen : ∀ s ∈ slots, s.sides = s.sidesAt (-p.infinity) p.infinity) (hlimit : 0 < limit)
    (hinfinity : limit ≤ p.infinity) :
    ((p.setState state).switchOn k).IsFeasibleFor limit point ↔
      p.Frames state point ∧ Obeys slot.dynamics slot.equalities slot.inequalities slot.pieces
        p.noiseAt point := by
  rw [setState_switchOn_of_slotted hbody, isFeasibleFor_setState_iff]
  refine and_congr ⟨fun h => ?_, fun h => ?_⟩
    (NoiseSlot.holds_allRows_iff hk hopen hlimit hinfinity)
  · exact h.congr rfl rfl rfl rfl rfl fun _ _ => rfl
  · exact h.congr rfl rfl rfl rfl rfl fun _ _ => rfl

end StageProgram

end Bellman
