import Bellman.Proofs.Problem
import Bellman.Proofs.Program.Feasible
import Mathlib.Order.Bounds.Defs
import Mathlib.Tactic.NormNum.Basic

/-!
# Both update modes describe the same stage

A program whose noise is a variable and one that has slots for all values of the noise are built
separately. If the problem gives the same rows for a value that is known and for a variable that is
fixed to it, then the two programs have the same feasible points and the same objective, once the
variable is fixed and the slot is live. The only difference is the column for the cost that slots
always have: where the cost is a single piece, its least value is the cost.
-/

namespace Bellman

open Data Function

variable {S : Type} [Scalar S] [CommRing S]

/-- Rows of a slot that have the values of other rows once the noise of these is fixed. -/
structure NoiseSlot.Realizes (slot : NoiseSlot S) (w : List S)
    (dynamics equalities inequalities pieces : List (Expr S)) : Prop where
  dynamics : List.Forall₂ (Expr.IsInstance w) dynamics slot.dynamics
  equalities : List.Forall₂ (Expr.IsInstance w) equalities slot.equalities
  inequalities : List.Forall₂ (Expr.IsInstance w) inequalities slot.inequalities
  pieces : List.Forall₂ (Expr.IsInstance w) pieces slot.pieces

omit [Scalar S] in
theorem map_eval_of_isInstance {w : List S} {es es' : List (Expr S)}
    (h : List.Forall₂ (Expr.IsInstance w) es es') (w' : Nat → S) (point : Column → S) :
    es.map (Expr.eval (fun k => w.getD k 0) point) = es'.map (Expr.eval w' point) := by
  induction h with
  | nil => rfl
  | cons he _ ih => rw [List.map_cons, List.map_cons, he w' point, ih]

omit [Scalar S] in
/-- A slot asks for a value of the noise what the rows ask when the noise is a variable. -/
theorem NoiseSlot.Realizes.obeys_iff [LinearOrder S] {slot : NoiseSlot S} {w : List S}
    {dynamics equalities inequalities pieces : List (Expr S)}
    (h : slot.Realizes w dynamics equalities inequalities pieces) (w' : Nat → S)
    (point : Column → S) :
    Obeys dynamics equalities inequalities pieces (fun k => w.getD k 0) point ↔
      Obeys slot.dynamics slot.equalities slot.inequalities slot.pieces w' point := by
  simp only [obeys_iff_values, map_eval_of_isInstance h.dynamics w' point,
    map_eval_of_isInstance h.equalities w' point, map_eval_of_isInstance h.inequalities w' point,
    map_eval_of_isInstance h.pieces w' point]

omit [Scalar S] in
/-- A slot that is built for a value at which a problem agrees with itself has the rows that the
problem gives for a noise that is variable. -/
theorem DirectRows.IsBuilt.exists_slot {problem : Problem S} {stage : Int} {noises : Nat}
    {model : CostModel} {pieces : List (StageCost S)} {r : DirectRows S} {costs : List (Expr S)}
    {w : List S} (h : r.IsBuilt problem stage noises model pieces)
    (hpieces : problem.costPieces = .ok (model, pieces))
    (hcosts : pieces.mapM (fun piece => piece stage (.variables noises)) = .ok costs)
    (hagrees : problem.AgreesAt stage noises w) (infinity : S) :
    ∃ slot : NoiseSlot S, slot.IsBuilt problem stage infinity pieces w ∧
      slot.Realizes w r.dynamics r.equalities r.inequalities costs := by
  obtain ⟨dynamics, hdynamics, hd⟩ := hagrees.dynamics _ h.dynamics
  obtain ⟨equalities, hequalities, he⟩ := hagrees.equalities _ h.equalities
  obtain ⟨inequalities, hinequalities, hi⟩ := hagrees.inequalities _ h.inequalities
  obtain ⟨costs', hcosts', hc⟩ := mapM_of_forall_mem
    (fun piece hpiece => hagrees.cost model pieces hpieces piece hpiece) hcosts
  refine ⟨Body.pinnedSlot infinity dynamics equalities inequalities costs', ?_, hd, he, hi, hc⟩
  refine ⟨hdynamics, hequalities, hinequalities, hcosts', ?_, rfl⟩
  change (Value.num problem.states).isCount dynamics.length = true
  rw [← hd.length_eq]
  exact h.count

namespace StageProgram

variable {problem : Problem S} {params : Parameters} {stage : Int} {dim : Value}
variable {model : CostModel}

/-- The parts of a program with slots, from those of one in which the noise is a variable. -/
def Parts.slotted (parts : Parts problem { params with updateMode := .rebuild } stage dim model)
    {slots : List (NoiseSlot S)}
    (h : Body.buildSlotted problem stage parts.infinity parts.pieces = .ok (.slotted slots)) :
    Parts problem { params with updateMode := .slotReuse } stage dim model where
  pieces := parts.pieces
  infinity := parts.infinity
  states := parts.states
  controls := parts.controls
  noises := parts.noises
  futureLower := parts.futureLower
  body := .slotted slots
  costPieces_eq := parts.costPieces_eq
  infinity_eq := parts.infinity_eq
  dim_eq := parts.dim_eq
  states_eq := parts.states_eq
  controls_eq := parts.controls_eq
  noises_eq := parts.noises_eq
  futureLower_eq := parts.futureLower_eq
  body_eq := h

/-- Where a program can be built in which the noise is a variable, one with slots can be built, too,
and its slots have the same rows. -/
theorem Parts.exists_slotted
    (parts : Parts problem { params with updateMode := .rebuild } stage dim model)
    {r : DirectRows S} {costs : List (Expr S)} {law : NoiseLaw S}
    (hr : r.IsBuilt problem stage parts.noises model parts.pieces)
    (hcosts : parts.pieces.mapM (fun piece => piece stage (.variables parts.noises)) = .ok costs)
    (hlaw : problem.law stage = .ok law)
    (hagrees : ∀ w ∈ law.support, problem.AgreesAt stage parts.noises w) :
    ∃ slots : List (NoiseSlot S),
      Body.buildSlotted problem stage parts.infinity parts.pieces = .ok (.slotted slots) ∧
      List.Forall₂ (fun w slot =>
        slot.sides = slot.sidesAt (-parts.infinity) parts.infinity ∧
          slot.Realizes w r.dynamics r.equalities r.inequalities costs) law.support slots := by
  obtain ⟨slots, hslots⟩ := exists_forall₂_of_forall_mem fun w hw =>
    hr.exists_slot parts.costPieces_eq hcosts (hagrees w hw) parts.infinity
  refine ⟨slots, ?_, hslots.imp fun _ _ h => ⟨h.1.sides, h.2⟩⟩
  refine Body.buildSlotted_eq_ok_iff.mpr ⟨law, slots, hlaw, hslots.imp fun _ _ h => h.1, ?_, rfl⟩
  refine ⟨⟨r.equalities.length, ?_⟩, ⟨r.inequalities.length, ?_⟩⟩
  · intro slot hslot
    obtain ⟨w, -, -, h⟩ := exists_of_mem_forall₂ hslots hslot
    exact h.equalities.length_eq.symm
  · intro slot hslot
    obtain ⟨w, -, -, h⟩ := exists_of_mem_forall₂ hslots hslot
    exact h.inequalities.length_eq.symm

variable [LinearOrder S] [IsStrictOrderedRing S]

/-- The program with slots and what it asks of a point when a slot is live, in terms of the rows in
which the noise is a variable. -/
theorem Parts.exists_activated
    (parts : Parts problem { params with updateMode := .rebuild } stage dim model)
    {r : DirectRows S} {costs : List (Expr S)} {law : NoiseLaw S} {k : Nat} {w : List S} {limit : S}
    (hr : r.IsBuilt problem stage parts.noises model parts.pieces)
    (hcosts : parts.pieces.mapM (fun piece => piece stage (.variables parts.noises)) = .ok costs)
    (hlaw : problem.law stage = .ok law)
    (hagrees : ∀ w ∈ law.support, problem.AgreesAt stage parts.noises w)
    (hk : law.support[k]? = some w) (hlimit : 0 < limit) (hinfinity : limit ≤ parts.infinity)
    (cuts : List (Cut S)) (state : List S) :
    ∃ (parts' : Parts problem { params with updateMode := .slotReuse } stage dim model)
      (q : StageProgram S), parts'.states = parts.states ∧
      ((parts'.program cuts).setState state).activate (.whole k) = .ok q ∧
      (∀ point, q.value point = point .cost + point .future) ∧
      ∀ point, q.IsFeasibleFor limit point ↔ (parts.program cuts).Frames state point ∧
        Obeys r.dynamics r.equalities r.inequalities costs (fun k => w.getD k 0) point := by
  obtain ⟨slots, hslotted, hslots⟩ := parts.exists_slotted hr hcosts hlaw hagrees
  obtain ⟨slot, hslot, -, hrealizes⟩ := getElem?_of_forall₂ hslots hk
  have hopen : ∀ s ∈ slots, s.sides = s.sidesAt (-parts.infinity) parts.infinity := by
    intro s hs
    obtain ⟨_, -, hsides, -⟩ := exists_of_mem_forall₂ hslots hs
    exact hsides
  have hlt : k < slots.length := (List.getElem?_eq_some_iff.mp hslot).1
  refine ⟨parts.slotted hslotted, _, rfl, activate_natCast_eq_ok_iff.mpr ⟨hlt, rfl, rfl⟩,
    value_of_hasCost rfl, fun point => ?_⟩
  -- Frames do not look at the body, so those of the two programs are the same.
  refine (isFeasibleFor_switchOn_iff (p := (parts.slotted hslotted).program cuts) rfl hslot
    hopen hlimit hinfinity).trans
    (and_congr ⟨fun h => ?_, fun h => ?_⟩ (hrealizes.obeys_iff _ point).symm)
  · exact h.congr rfl rfl rfl rfl rfl fun _ _ => rfl
  · exact h.congr rfl rfl rfl rfl rfl fun _ _ => rfl

omit [IsStrictOrderedRing S] in
/-- A program with a column for the cost agrees with one whose cost is in the objective: the column
may be anything from that cost on, so the least objective over it is the other one. -/
theorem isLeast_of_column [IsOrderedAddMonoid S] {q r : StageProgram S} {limit c : S}
    {point : Column → S}
    (hfeasible : ∀ cost, q.IsFeasibleFor limit (update point .cost cost) ↔
      r.IsFeasible point ∧ c ≤ cost)
    (hq : ∀ point, q.value point = point .cost + point .future)
    (hr : r.value point = c + point .future) :
    (r.IsFeasible point ↔ ∃ cost, q.IsFeasibleFor limit (update point .cost cost)) ∧
      (r.IsFeasible point → IsLeast
        {y | ∃ cost, q.IsFeasibleFor limit (update point .cost cost) ∧
          y = q.value (update point .cost cost)} (r.value point)) := by
  have hvalue : ∀ cost, q.value (update point .cost cost) = cost + point .future := by
    intro cost
    rw [hq, update_self, update_of_ne (by simp)]
  constructor
  · constructor
    · intro h
      exact ⟨c, (hfeasible c).mpr ⟨h, le_rfl⟩⟩
    · rintro ⟨cost, h⟩
      exact ((hfeasible cost).mp h).1
  · intro h
    constructor
    · exact ⟨c, (hfeasible c).mpr ⟨h, le_rfl⟩, by rw [hvalue, hr]⟩
    · rintro _ ⟨cost, hcost, rfl⟩
      rw [hvalue, hr]
      exact add_le_add_left ((hfeasible cost).mp hcost).2 (point .future)

/-- Both modes describe the same stage. If a program can be built in which the noise is a variable,
then one with slots can be built and its slot `k` switched on. Read by a solver to which the
sentinel is as good as no right-hand side, it has the same feasible points and the same objective.
Where the cost is a single piece, slots have a column for it that the other program lacks: a point
is feasible without it if it is for some cost, and the objective is the least one over such
costs. -/
theorem modes_equivalent (params : Parameters) {v : ValueFunction S} {p : StageProgram S}
    {noises : Nat} {law : NoiseLaw S} {k : Nat} {w : List S} {limit : S} (state : List S)
    (haffine : problem.IsAffine) (hnoises : problem.noises.toCount = .ok noises)
    (hlaw : problem.law stage = .ok law)
    (hagrees : ∀ w ∈ law.support, problem.AgreesAt stage noises w)
    (hk : law.support[k]? = some w)
    (hbuild : build problem { params with updateMode := .rebuild } stage v = .ok (model, p))
    (hlimit : 0 < limit) (hinfinity : limit ≤ p.infinity) :
    ∃ base q, build problem { params with updateMode := .slotReuse } stage v = .ok (model, base) ∧
      (base.setState state).activate (.whole k) = .ok q ∧
      let r := (p.setState state).setNoise w
      (model = .piecewiseLinear → ∀ point : Column → S,
        (q.IsFeasibleFor limit point ↔ r.IsFeasible point) ∧ q.value point = r.value point) ∧
      (model = .linear → ∀ point : Column → S,
        (r.IsFeasible point ↔ ∃ cost, q.IsFeasibleFor limit (update point .cost cost)) ∧
        (r.IsFeasible point → IsLeast
          {y | ∃ cost, q.IsFeasibleFor limit (update point .cost cost) ∧
            y = q.value (update point .cost cost)} (r.value point))) := by
  obtain ⟨parts, fits, rfl⟩ := build_eq_ok_iff.mp hbuild
  obtain rfl : parts.noises = noises := Except.ok.inj (parts.noises_eq.symm.trans hnoises)
  obtain ⟨r, hbody, hr⟩ := parts.exists_rows rfl
  obtain ⟨costs, hcosts, hcost⟩ := hr.cost
  obtain ⟨parts', q, hstates, hactivate, hvalue, hq⟩ :=
    parts.exists_activated hr hcosts hlaw hagrees hk hlimit hinfinity v.cuts state
  have hdirect : ∀ point, (((parts.program v.cuts).setState state).setNoise w).IsFeasible point ↔
      (parts.program v.cuts).Frames state point ∧
        Obeys r.dynamics r.equalities r.inequalities r.cost.bounded (fun k => w.getD k 0) point :=
    fun point => isFeasible_setNoise_iff hbody w
  refine ⟨parts'.program v.cuts, q, build_eq_ok_iff.mpr ⟨parts', hstates ▸ fits, rfl⟩, hactivate,
    ?_, ?_⟩
  · rintro rfl point
    refine ⟨?_, ?_⟩
    · rw [hq, hdirect, hcost]
      rfl
    · rw [hvalue, value_of_hasCost]
      change parts.body.hasCost = true
      rw [hbody]
      exact Body.hasCost_of_largest hcost
  · rintro rfl point
    obtain ⟨piece, hpiece⟩ := Problem.exists_piece parts.costPieces_eq
    obtain ⟨e, rfl⟩ : ∃ e, costs = [e] := by
      have hlength := length_of_mapM hcosts
      rw [hpiece] at hlength
      exact List.length_eq_one_iff.mp hlength
    obtain ⟨hdynamics, hequalities, hinequalities, hscoped⟩ :=
      hr.areScoped haffine parts.hasShape parts.costPieces_eq hcosts
    have hfeasible : ∀ cost, q.IsFeasibleFor limit (update point .cost cost) ↔
        (((parts.program v.cuts).setState state).setNoise w).IsFeasible point ∧
          e.eval (fun k => w.getD k 0) point ≤ cost := by
      intro cost
      rw [hq, hdirect, frames_update_iff, hcost,
        obeys_update_iff hdynamics hequalities hinequalities hscoped, List.forall_mem_singleton,
        and_assoc]
      rfl
    have hobjective : (((parts.program v.cuts).setState state).setNoise w).value point =
        e.eval (fun k => w.getD k 0) point + point .future := by
      rw [value_eq]
      change parts.body.cost.eval _ point + _ = _
      rw [hbody, Body.cost_of_single hcost]
      rfl
    exact isLeast_of_column hfeasible hvalue hobjective

end StageProgram

/-- The stock with the larger of two costs, for a stock of two and a demand of three. -/
theorem Stock.modes_equivalent_piecewise :
    ∃ p base q, StageProgram.build (problem .piecewiseLinear) (params .rebuild) 0 future =
        .ok (.piecewiseLinear, p) ∧
      StageProgram.build (problem .piecewiseLinear) (params .slotReuse) 0 future =
        .ok (.piecewiseLinear, base) ∧
      (base.setState [2]).activate (.whole 1) = .ok q ∧
      ∀ point, (q.IsFeasibleFor (10 ^ 20) point ↔
          ((p.setState [2]).setNoise [3]).IsFeasible point) ∧
        q.value point = ((p.setState [2]).setNoise [3]).value point := by
  obtain ⟨p, hbuild, hinfinity⟩ : ∃ p, StageProgram.build (problem .piecewiseLinear)
      (params .rebuild) 0 future = .ok (.piecewiseLinear, p) ∧ (10 ^ 20 : ℚ) ≤ p.infinity :=
    ⟨_, rfl, le_refl _⟩
  have hagrees : ∀ w ∈ [[1], [3]], (problem .piecewiseLinear).AgreesAt 0 1 w := by
    simp only [List.forall_mem_cons, List.not_mem_nil, false_implies, implies_true, and_true]
    exact ⟨agreesAt_problem _ 0 1, agreesAt_problem _ 0 3⟩
  have hlaw : (problem .piecewiseLinear).law 0 = .ok ⟨[[1], [3]], [.whole 1, .whole 1]⟩ := rfl
  have hk : ([[1], [3]] : List (List ℚ))[1]? = some [3] := rfl
  obtain ⟨base, q, hbase, hq, hsame, -⟩ := StageProgram.modes_equivalent
    (params .rebuild) [2] (isAffine_problem _) rfl hlaw hagrees hk hbuild (by norm_num) hinfinity
  exact ⟨p, base, q, hbuild, hbase, hq, hsame rfl⟩

end Bellman
