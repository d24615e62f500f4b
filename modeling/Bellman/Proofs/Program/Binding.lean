import Bellman.Proofs.Program.Feasible
import Bellman.Proofs.Program.Given
import Bellman.Proofs.Program.Slots
import Bellman.Proofs.Reading
import Mathlib.Algebra.Order.Group.Abs
import Mathlib.Data.List.MinMax

/-!
# When pinned slots do not bind

The rows of a pinned slot are held open by a sentinel. A solver that takes a right-hand side of the
size of the sentinel for none does not see them. Otherwise they are rows like any others, and ask
that the state that follows be no further than the sentinel from where the pinned noise would lead,
and that its equalities, inequalities and pieces of the cost be off by no more than that.

So the rows of the pinned slots ask nothing that the live slot does not ask exactly if the sentinel
is not below the limit of the solver, or the slots are no further apart than the sentinel wherever
the live one allows a point to be.
-/

namespace Bellman

open Data

variable {S : Type}

/-- The slot that a row belongs to. -/
def RowName.slot? : RowName → Option Nat
  | slotDynamics k _ => some k
  | slotEquality k _ => some k
  | slotInequality k _ => some k
  | slotCost k _ => some k
  | _ => none

theorem RowName.slot?_of_not_isSlot {name : RowName} (h : name.isSlot = false) :
    name.slot? = none := by
  cases name <;> first | rfl | cases h

theorem NoiseSlot.slot?_of_mem_rows [One S] [Neg S] {s : NoiseSlot S} {k : Nat} :
    ∀ r ∈ s.rows k, r.name.slot? = some k := by
  simp only [rows, dynamicsRows, equalityRows, inequalityRows, costRows, List.forall_mem_append,
    forall_mem_map_zipIdx, RowName.slot?, implies_true, and_self]

/-- A row as a solver reads it, without right-hand sides if it is of another slot than `k`. -/
def Row.asReadIn [Neg S] [LT S] [DecidableLT S] (limit : S) (k : Nat) (r : Row S) : Row S :=
  if r.name.slot? = none ∨ r.name.slot? = some k then r.asRead limit
  else { r with lower := none, upper := none }

variable [CommRing S] [LinearOrder S]

section Rows

variable {limit : S} {k : Nat} {r : Row S} {w : Nat → S} {point : Column → S}

theorem Row.asReadIn_of_not_isSlot (h : r.name.isSlot = false) : r.asReadIn limit k = r := by
  rw [asReadIn, if_pos (.inl (RowName.slot?_of_not_isSlot h)), asRead_of_not_isSlot h]

theorem Row.holds_asReadIn :
    (r.asReadIn limit k).Holds w point ↔
      (r.name.slot? = none ∨ r.name.slot? = some k → (r.asRead limit).Holds w point) := by
  unfold asReadIn
  split
  · next h => exact ⟨fun hr _ => hr, fun hr => hr h⟩
  · next h => exact iff_of_true within_none_none fun h' => absurd h' h

namespace NoiseSlot

/-- What the rows of a slot ask that is held open by a sentinel that a solver sees. -/
structure Admits (infinity : S) (t : NoiseSlot S) (w : Nat → S) (point : Column → S) : Prop where
  dynamics : ∀ (i : Nat) (e : Expr S), t.dynamics[i]? = some e →
    |point (.nextState i) - e.eval w point| ≤ infinity
  equalities : ∀ e ∈ t.equalities, |e.eval w point| ≤ infinity
  inequalities : ∀ e ∈ t.inequalities, e.eval w point ≤ infinity
  pieces : ∀ e ∈ t.pieces, e.eval w point ≤ point .cost + infinity

/-- Whether a slot is no further than a sentinel from what another one leads to at a point: the
states that follow are that close, its equalities and inequalities are off by no more, and no piece
of its cost is further above all pieces of the other. -/
structure IsNear (infinity : S) (s t : NoiseSlot S) (w : Nat → S) (point : Column → S) :
    Prop where
  dynamics : ∀ (i : Nat) (d e : Expr S), s.dynamics[i]? = some d → t.dynamics[i]? = some e →
    |d.eval w point - e.eval w point| ≤ infinity
  equalities : ∀ e ∈ t.equalities, |e.eval w point| ≤ infinity
  inequalities : ∀ e ∈ t.inequalities, e.eval w point ≤ infinity
  pieces : ∀ e ∈ t.pieces, ∃ d ∈ s.pieces, e.eval w point ≤ d.eval w point + infinity

variable [IsStrictOrderedRing S] {s t : NoiseSlot S} {infinity : S} {slots : List (NoiseSlot S)}

/-- The rows of a slot that is held open by a sentinel below the limit. -/
theorem holds_rows_of_seen (hlimit : infinity < limit)
    (h : t.sides = t.sidesAt (-infinity) infinity) :
    (∀ r ∈ t.rows k, (r.asRead limit).Holds w point) ↔ t.Admits infinity w point := by
  have hlower : (some (-infinity)).filter (fun l => -limit < l) = some (-infinity) := by
    simp [Option.filter_some, hlimit]
  have hupper : (some infinity).filter (fun u => u < limit) = some infinity := by
    simp [Option.filter_some, hlimit]
  have hcost : ∀ a b : S, -infinity ≤ a - b ↔ b ≤ a + infinity := fun a b => by
    rw [le_sub_iff_add_le', ← sub_eq_add_neg, sub_le_iff_le_add]
  simp only [rows, List.forall_mem_append, forall_mem_dynamicsRows h, forall_mem_equalityRows h,
    forall_mem_inequalityRows h, forall_mem_costRows h, Row.asRead, RowName.isSlot, if_true, hlower,
    hupper, Option.filter_none, Row.holds_mk, within_some_some, within_none_some, within_some_none,
    Expr.eval_cons, Expr.eval_neg, Term.eval_ofColumn, ← sub_eq_add_neg, ← abs_le,
    forall_getElem?_iff]
  constructor
  · rintro ⟨⟨⟨hd, he⟩, hi⟩, hc⟩
    exact ⟨hd, he, hi, fun e h => (hcost _ _).mp (hc e h)⟩
  · rintro ⟨hd, he, hi, hc⟩
    exact ⟨⟨⟨hd, he⟩, hi⟩, fun e h => (hcost _ _).mpr (hc e h)⟩

/-- The rows of the live slot alone ask what the problem says for its noise. -/
theorem holds_allRows_in_iff (hk : slots[k]? = some s)
    (hopen : s.sides = s.sidesAt (-infinity) infinity) (hlimit : 0 < limit) :
    (∀ r ∈ allRows (slots.modify k switchedOn), (r.asReadIn limit k).Holds w point) ↔
      Obeys s.dynamics s.equalities s.inequalities s.pieces w point := by
  have hlive := holds_rows_iff k w point hlimit (sides_switchedOn hopen)
  refine Iff.trans ?_ hlive
  simp only [forall_mem_allRows, Row.holds_asReadIn]
  constructor
  · intro h r hr
    exact h k s.switchedOn (by simp [hk]) r hr (.inr (slot?_of_mem_rows r hr))
  · intro h j t ht r hr hslot
    obtain rfl : j = k := by
      rcases hslot with hnone | hsome
      · cases (slot?_of_mem_rows r hr).symm.trans hnone
      · exact Option.some.inj ((slot?_of_mem_rows r hr).symm.trans hsome)
    have hsame : t = s.switchedOn := by
      simpa [hk] using ht.symm
    rw [hsame] at hr
    exact h r hr

/-- A point that the live slot allows is admitted by a slot that is near there. -/
theorem IsNear.admits (h : s.IsNear infinity t w point)
    (hobeys : Obeys s.dynamics s.equalities s.inequalities s.pieces w point)
    (hlength : s.dynamics.length = t.dynamics.length) : t.Admits infinity w point where
  dynamics i e he := by
    have hi : i < s.dynamics.length := hlength ▸ (List.getElem?_eq_some_iff.mp he).1
    have hd := List.getElem?_eq_getElem hi
    rw [hobeys.dynamics i _ hd]
    exact h.dynamics i _ e hd he
  equalities := h.equalities
  inequalities := h.inequalities
  pieces e he := by
    obtain ⟨d, hd, hle⟩ := h.pieces e he
    exact hle.trans (add_le_add_left (hobeys.pieces d hd) infinity)

omit [IsStrictOrderedRing S] in
/-- A slot that admits the point at which the live slot has the cost of its largest piece is near
there. -/
theorem Admits.isNear {shape : Shape} {d : Expr S} (hd : d ∈ s.pieces)
    (h : t.Admits infinity w (Function.update point .cost (d.eval w point)))
    (hobeys : Obeys s.dynamics s.equalities s.inequalities s.pieces w point)
    (hscoped : ∀ e ∈ t.exprs, e.IsScoped shape) : s.IsNear infinity t w point := by
  have hsame : ∀ e ∈ t.exprs,
      e.eval w (Function.update point .cost (d.eval w point)) = e.eval w point :=
    fun e he => ((hscoped e he).ignores id).eval_update _
  simp only [exprs, List.forall_mem_append] at hsame
  obtain ⟨⟨⟨hdynamics, hequalities⟩, hinequalities⟩, hpieces⟩ := hsame
  refine ⟨?_, ?_, ?_, ?_⟩
  · intro i d' e hd' he
    have hle := h.dynamics i e he
    rw [hdynamics e (List.mem_of_getElem? he), Function.update_of_ne Column.noConfusion,
      hobeys.dynamics i d' hd'] at hle
    exact hle
  · intro e he
    exact hequalities e he ▸ h.equalities e he
  · intro e he
    exact hinequalities e he ▸ h.inequalities e he
  · intro e he
    have hle := h.pieces e he
    rw [hpieces e he, Function.update_self] at hle
    exact ⟨d, hd, hle⟩

omit [IsStrictOrderedRing S] in
theorem exists_largest (hne : s.pieces ≠ []) (w : Nat → S) (point : Column → S) :
    ∃ d ∈ s.pieces, ∀ e ∈ s.pieces, e.eval w point ≤ d.eval w point := by
  have hsome : s.pieces.argmax (Expr.eval w point) ≠ none := by
    rwa [ne_eq, List.argmax_eq_none]
  obtain ⟨d, hd⟩ := Option.ne_none_iff_exists'.mp hsome
  exact ⟨d, List.argmax_mem hd, fun e he => List.le_of_mem_argmax he hd⟩

/-- Whether slots are all held open by a sentinel, with as many rows for the next state, with at
least one piece of the cost, and over one shape. -/
structure AreAlike (shape : Shape) (infinity : S) (slots : List (NoiseSlot S)) : Prop where
  sides : ∀ t ∈ slots, t.sides = t.sidesAt (-infinity) infinity
  pieces : ∀ t ∈ slots, t.pieces ≠ []
  isScoped : ∀ t ∈ slots, ∀ e ∈ t.exprs, e.IsScoped shape
  length : ∀ s ∈ slots, ∀ t ∈ slots, s.dynamics.length = t.dynamics.length

end NoiseSlot

end Rows

namespace StageProgram

variable [Scalar S]

/-- Whether the rows of all slots but `k` are idle: every point that keeps to the boxes and to the
rows of the state, of the cuts and of slot `k` keeps to them, too. -/
def OthersIdle (limit : S) (q : StageProgram S) (k : Nat) : Prop :=
  ∀ point, q.KeepsToBoxes point →
    (∀ r ∈ q.rows, r.name.slot? = none ∨ r.name.slot? = some k →
      (r.asRead limit).Holds q.noiseAt point) →
    ∀ r ∈ q.rows, (r.asRead limit).Holds q.noiseAt point

variable [IsStrictOrderedRing S] {p : StageProgram S} {slots : List (NoiseSlot S)}
variable {slot : NoiseSlot S} {k : Nat} {state : List S} {limit infinity : S}

/-- The other slots are idle exactly if their rows hold wherever the live slot allows a point. -/
theorem othersIdle_switchOn_iff (hbody : p.body = .slotted slots) (hk : slots[k]? = some slot)
    (hopen : slot.sides = slot.sidesAt (-infinity) infinity) (hlimit : 0 < limit) :
    ((p.setState state).switchOn k).OthersIdle limit k ↔
      ∀ point, p.Frames state point →
        Obeys slot.dynamics slot.equalities slot.inequalities slot.pieces p.noiseAt point →
        ∀ j t, j ≠ k → slots[j]? = some t →
          ∀ r ∈ t.rows j, (r.asRead limit).Holds p.noiseAt point := by
  let p' : StageProgram S :=
    { p with
      body := .slotted (slots.modify k NoiseSlot.switchedOn)
      live := some k }
  have hin := fun point => holds_rows_setState p' state p.noiseAt point
    (f := Row.asReadIn limit k) fun _ => Row.asReadIn_of_not_isSlot
  have hall := fun point => holds_rows_setState p' state p.noiseAt point
    (f := Row.asRead limit) fun _ => Row.asRead_of_not_isSlot
  simp only [Row.holds_asReadIn] at hin
  rw [setState_switchOn_of_slotted hbody]
  constructor
  · intro hidle point hframes hobeys
    have hframes' : p'.Frames state point := hframes.congr rfl rfl rfl rfl rfl fun _ _ => rfl
    have hlive := (NoiseSlot.holds_allRows_in_iff hk hopen hlimit).mpr hobeys
    simp only [Row.holds_asReadIn] at hlive
    have hrows := hidle point hframes'.boxes
      ((hin point).mpr ⟨hframes'.state, hlive, hframes'.cuts⟩)
    exact ((NoiseSlot.holds_allRows_modify_iff hk hopen hlimit).mp
      ((hall point).mp hrows).2.1).2
  · intro hothers point hboxes hrows
    obtain ⟨hstate, hlive, hcuts⟩ := (hin point).mp hrows
    have hframes' : p'.Frames state point := ⟨hboxes, hstate, hcuts⟩
    have hframes : p.Frames state point := hframes'.congr rfl rfl rfl rfl rfl fun _ _ => rfl
    have hlive' : ∀ r ∈ NoiseSlot.allRows (slots.modify k NoiseSlot.switchedOn),
        (r.asReadIn limit k).Holds p.noiseAt point :=
      fun r hr => Row.holds_asReadIn.mpr (hlive r hr)
    have hobeys := (NoiseSlot.holds_allRows_in_iff hk hopen hlimit).mp hlive'
    refine (hall point).mpr ⟨hstate, ?_, hcuts⟩
    exact (NoiseSlot.holds_allRows_modify_iff hk hopen hlimit).mpr
      ⟨hobeys, hothers point hframes hobeys⟩

/-- If the solver sees the sentinel, the rows of the other slots hold wherever the live slot allows
a point exactly if the other slots are near there. -/
theorem forall_rows_iff_isNear {shape : Shape} (hslots : NoiseSlot.AreAlike shape infinity slots)
    (hk : slots[k]? = some slot) (hlimit : infinity < limit) :
    (∀ point, p.Frames state point →
      Obeys slot.dynamics slot.equalities slot.inequalities slot.pieces p.noiseAt point →
      ∀ j t, j ≠ k → slots[j]? = some t →
        ∀ r ∈ t.rows j, (r.asRead limit).Holds p.noiseAt point) ↔
      ∀ point, p.Frames state point →
        Obeys slot.dynamics slot.equalities slot.inequalities slot.pieces p.noiseAt point →
        ∀ j t, j ≠ k → slots[j]? = some t → slot.IsNear infinity t p.noiseAt point := by
  have hslot := List.mem_of_getElem? hk
  constructor
  · intro hrows point hframes hobeys j t hj ht
    have hmem := List.mem_of_getElem? ht
    have hs := hslots.isScoped slot hslot
    simp only [NoiseSlot.exprs, List.forall_mem_append] at hs
    obtain ⟨⟨⟨hdynamics, hequalities⟩, hinequalities⟩, hpieces⟩ := hs
    -- The rows leave the cost free from above, so they are tightest when it is the largest piece.
    obtain ⟨d, hd, hlargest⟩ :=
      NoiseSlot.exists_largest (hslots.pieces slot hslot) p.noiseAt point
    have hnone : Obeys slot.dynamics slot.equalities slot.inequalities [] p.noiseAt point :=
      ⟨hobeys.dynamics, hobeys.equalities, hobeys.inequalities, List.forall_mem_nil _⟩
    have htight := (obeys_update_iff hdynamics hequalities hinequalities hpieces
      (d.eval p.noiseAt point)).mpr ⟨hnone, hlargest⟩
    have hadmits := (NoiseSlot.holds_rows_of_seen hlimit (hslots.sides t hmem)).mp
      (hrows _ (frames_update_iff.mpr hframes) htight j t hj ht)
    exact hadmits.isNear hd hobeys (hslots.isScoped t hmem)
  · intro hnear point hframes hobeys j t hj ht
    have hmem := List.mem_of_getElem? ht
    refine (NoiseSlot.holds_rows_of_seen hlimit (hslots.sides t hmem)).mpr ?_
    exact (hnear point hframes hobeys j t hj ht).admits hobeys (hslots.length slot hslot t hmem)

variable {problem : Problem S} {params : Parameters} {stage : Int} {v : ValueFunction S}
variable {model : CostModel} {base q : StageProgram S}

omit [LinearOrder S] [IsStrictOrderedRing S] in
/-- The slots of a program that was built for an affine problem. -/
theorem Parts.areAlike {dim : Value} (parts : Parts problem params stage dim model)
    (haffine : problem.IsAffine) {cuts : List (Cut S)}
    (hslot : (parts.program cuts).slots[k]? = some slot) :
    (parts.program cuts).body = .slotted (parts.program cuts).slots ∧
      NoiseSlot.AreAlike ⟨parts.states, parts.controls⟩ parts.infinity
        (parts.program cuts).slots := by
  have hmode : params.updateMode = .slotReuse := by
    cases hmode : params.updateMode with
    | slotReuse => rfl
    | rebuild =>
        obtain ⟨rows, hrows, -⟩ := parts.exists_rows hmode
        have hnone : (parts.program cuts).slots = [] := slots_of_direct hrows
        rw [hnone] at hslot
        cases hslot
  obtain ⟨law, slots, -, hbody, built⟩ := parts.exists_slots hmode
  have hslots : (parts.program cuts).slots = slots := slots_of_slotted hbody
  have hscoped := parts.isScoped_exprs haffine
  have hcount : ∀ t ∈ slots, t.dynamics.length = parts.states := by
    intro t ht
    obtain ⟨w, -, hw⟩ := exists_of_mem_forall₂ built ht
    exact Number.eq_of_isCount parts.states_eq hw.count
  refine ⟨hslots ▸ hbody, fun t ht => (parts.slot_of_mem ht).1,
    fun t ht => (parts.slot_of_mem ht).2, ?_, ?_⟩
  · rw [hslots]
    rw [hbody] at hscoped
    exact fun t ht e he => hscoped e (List.mem_flatMap.mpr ⟨t, ht, he⟩)
  · rw [hslots]
    exact fun s hs t ht => (hcount s hs).trans (hcount t ht).symm

/-- When pinned slots do not bind. A program that was built for an affine problem has slot `k`
switched on and is targeted to a state. Then the rows of the pinned slots are idle exactly if the
sentinel, which is the one of the parameters, is not below the limit of the solver, or if every
other slot is no further away than the sentinel at all points that slot `k` allows. -/
theorem othersIdle_iff (haffine : problem.IsAffine)
    (hbuild : build problem params stage v = .ok (model, base))
    (hslot : base.slots[k]? = some slot)
    (hactive : (base.setState state).activate (.whole k) = .ok q) (hlimit : 0 < limit) :
    Scalar.read (.num params.infinity) = .ok base.infinity ∧
    (q.OthersIdle limit k ↔ limit ≤ base.infinity ∨
      ∀ point, base.Frames state point →
        Obeys slot.dynamics slot.equalities slot.inequalities slot.pieces base.noiseAt point →
        ∀ j t, j ≠ k → base.slots[j]? = some t →
          slot.IsNear base.infinity t base.noiseAt point) := by
  obtain ⟨parts, -, rfl⟩ := build_eq_ok_iff.mp hbuild
  obtain ⟨-, -, rfl⟩ := activate_natCast_eq_ok_iff.mp hactive
  obtain ⟨hbody, halike⟩ := parts.areAlike haffine hslot
  refine ⟨parts.infinity_eq, ?_⟩
  rw [othersIdle_switchOn_iff hbody hslot (halike.sides slot (List.mem_of_getElem? hslot)) hlimit]
  rcases le_or_gt limit parts.infinity with hle | hlt
  · refine iff_of_true (fun point _ _ j t _ ht => ?_) (.inl hle)
    exact NoiseSlot.holds_rows_of_open hle (halike.sides t (List.mem_of_getElem? ht))
  · refine Iff.trans ?_ (or_iff_right (not_le.mpr hlt)).symm
    exact forall_rows_iff_isNear halike hslot hlt

end StageProgram

namespace Stock

/-- Parameters for slots that are held open by a sentinel of choice. -/
def heldAt (infinity : Int) : Parameters :=
  { params .slotReuse with infinity := .whole infinity }

/-- What is given for these parameters. -/
def givenFor (infinity : Int) : Parameters.Given where
  solver := .text "exact"
  updateMode := .text UpdateMode.slotReuse.keyword
  infinity := .int infinity
  alphaLowerBound := .int 0
  noiseTolerance := .int 0

/-- A stock and an order, less a number. -/
def stockLess (s : ℚ) : Expr ℚ :=
  [.multiple (.single 1 (.state 0)), .multiple (.single 1 (.control 0)), .weight (.constant (-s))]

theorem eval_stockLess (s : ℚ) (w : Nat → ℚ) (point : Column → ℚ) :
    Expr.eval w point (stockLess s) = point (.state 0) + point (.control 0) - s := by
  simp only [stockLess, Expr.eval_cons, Expr.eval_nil, Term.eval, Multiple.eval, Multiple.column,
    Weight.eval]
  ring

/-- Demands of one and of three are at most two apart, whatever is ordered. -/
theorem isNear_two {s t : NoiseSlot ℚ} {w : Nat → ℚ} {point : Column → ℚ}
    (hs : s.dynamics = [stockLess 1]) (ht : t.dynamics = [stockLess 3])
    (hequalities : t.equalities = []) (hinequalities : t.inequalities = s.inequalities)
    (hpieces : t.pieces = s.pieces)
    (hobeys : Obeys s.dynamics s.equalities s.inequalities s.pieces w point) :
    s.IsNear 2 t w point where
  dynamics := by
    rw [hs, ht]
    rintro (_ | i) d e hd he
    · obtain rfl : stockLess 1 = d := Option.some.inj hd
      obtain rfl : stockLess 3 = e := Option.some.inj he
      rw [eval_stockLess, eval_stockLess, sub_sub_sub_cancel_left]
      norm_num
    · cases hd
  equalities := by
    rw [hequalities]
    exact List.forall_mem_nil _
  inequalities := by
    rw [hinequalities]
    exact fun e he => (hobeys.inequalities e he).trans zero_le_two
  pieces := by
    rw [hpieces]
    exact fun e he => ⟨e, he, le_add_of_nonneg_right zero_le_two⟩

/-- While a demand of one is met, the demand of three is idle at a sentinel that the solver takes
for none, and also at one that it sees, if that is as large as what is between the demands. -/
theorem othersIdle_slotReuse :
    (∃ base q, StageProgram.build (problem .linear) (params .slotReuse) 0 future =
        .ok (.linear, base) ∧
      (base.setState [2]).activate (.whole 0) = .ok q ∧ q.OthersIdle (10 ^ 20) 0) ∧
    ∃ base q, StageProgram.build (problem .linear) (heldAt 2) 0 future = .ok (.linear, base) ∧
      (base.setState [2]).activate (.whole 0) = .ok q ∧ base.infinity < 10 ^ 20 ∧
      q.OthersIdle (10 ^ 20) 0 := by
  have hlimit : (0 : ℚ) < 10 ^ 20 := by norm_num
  constructor
  · obtain ⟨base, q, slot, hbuild, hslot, hactive, hinfinity⟩ : ∃ base q slot,
        StageProgram.build (problem .linear) (params .slotReuse) 0 future = .ok (.linear, base) ∧
        base.slots[0]? = some slot ∧ (base.setState [2]).activate (.whole 0) = .ok q ∧
        (10 ^ 20 : ℚ) ≤ base.infinity :=
      ⟨_, _, _, rfl, rfl, rfl, le_refl _⟩
    obtain ⟨-, hiff⟩ :=
      StageProgram.othersIdle_iff (isAffine_problem .linear) hbuild hslot hactive hlimit
    exact ⟨base, q, hbuild, hactive, hiff.mpr (.inl hinfinity)⟩
  · obtain ⟨base, q, s, t, hbuild, hslots, hactive, hinfinity, hs, ht, he, hi, hp⟩ : ∃ base q s t,
        StageProgram.build (problem .linear) (heldAt 2) 0 future = .ok (.linear, base) ∧
        base.slots = [s, t] ∧ (base.setState [2]).activate (.whole 0) = .ok q ∧
        base.infinity = 2 ∧ s.dynamics = [stockLess 1] ∧ t.dynamics = [stockLess 3] ∧
        t.equalities = [] ∧ t.inequalities = s.inequalities ∧ t.pieces = s.pieces :=
      ⟨_, _, _, _, rfl, rfl, rfl, rfl, by with_unfolding_all rfl, by with_unfolding_all rfl,
        rfl, rfl, rfl⟩
    have hslot : base.slots[0]? = some s := by
      rw [hslots]
      rfl
    obtain ⟨-, hiff⟩ :=
      StageProgram.othersIdle_iff (isAffine_problem .linear) hbuild hslot hactive hlimit
    refine ⟨base, q, hbuild, hactive, by norm_num [hinfinity], hiff.mpr (.inr ?_)⟩
    intro point _ hobeys j u hj hu
    rw [hslots] at hu
    rw [hinfinity]
    rcases j with _ | _ | j
    · exact absurd rfl hj
    · obtain rfl : t = u := Option.some.inj hu
      exact isNear_two hs ht he hi hp hobeys
    · cases hu

/-- A stock of two from which a demand of one is met, without an order. -/
def meetsOne : Column → ℚ
  | .state _ => 2
  | .nextState _ => 1
  | .future => 5
  | _ => 0

/-- Parameters with a sentinel of one are accepted. But while a demand of one is met, the rows of a
demand of three that is pinned at this sentinel forbid the stock that is left over. -/
theorem pinned_binds :
    (givenFor 1).check = .ok (heldAt 1) ∧
    ∃ base q, StageProgram.build (problem .linear) (heldAt 1) 0 future = .ok (.linear, base) ∧
      (base.setState [2]).activate (.whole 0) = .ok q ∧ ¬ q.OthersIdle (10 ^ 20) 0 := by
  obtain ⟨base, q, hbuild, hactive, hstates, hcontrols, hfuture, hlive, hpinned⟩ : ∃ base q,
      StageProgram.build (problem .linear) (heldAt 1) 0 future = .ok (.linear, base) ∧
      (base.setState [2]).activate (.whole 0) = .ok q ∧
      q.stateBounds.mapM DeclaredBounds.box = .ok [(⟨some 0, some 10⟩ : Box ℚ)] ∧
      q.controlBounds.mapM DeclaredBounds.box = .ok [(⟨some 0, some 5⟩ : Box ℚ)] ∧
      q.futureLower ≤ meetsOne .future ∧
      (∀ r ∈ q.rows, r.name.slot? = none ∨ r.name.slot? = some 0 →
        (r.asRead (10 ^ 20)).Holds q.noiseAt meetsOne) ∧
      ¬ ∀ r ∈ q.rows, (r.asRead (10 ^ 20)).Holds q.noiseAt meetsOne :=
    ⟨_, _, rfl, rfl, by with_unfolding_all rfl, by with_unfolding_all rfl, by decide +kernel,
      by decide +kernel, by decide +kernel⟩
  have hboxes : q.KeepsToBoxes meetsOne := by
    refine StageProgram.keepsToBoxes_iff.mpr ⟨_, _, hstates, hcontrols, ?_, ?_, hfuture⟩
    · simp only [List.getElem?_singleton, Option.ite_none_right_eq_some, Option.some.injEq]
      rintro i _ ⟨-, rfl⟩
      norm_num [meetsOne, within_some_some]
    · simp only [List.getElem?_singleton, Option.ite_none_right_eq_some, Option.some.injEq]
      rintro j _ ⟨-, rfl⟩
      norm_num [meetsOne, within_some_some]
  exact ⟨by with_unfolding_all rfl, base, q, hbuild, hactive,
    fun hidle => hpinned (hidle meetsOne hboxes hlive)⟩

end Stock

end Bellman
