import Bellman.Proofs.Program.Feasible
import Bellman.Proofs.Program.Given
import Mathlib.Data.Set.Finite.Lattice

/-!
# More cuts make a program tighter

A program asks of the future cost that it is not below its least value and not below the cuts. It
has no bound from above, and no row that the problem gives looks at it. So a feasible point stays
feasible under any other cuts once its future cost is raised, and it takes nothing else than that.
With more cuts there are fewer feasible points, and the least objective does not go down.
-/

namespace Bellman

open Data Function

variable {S : Type}

/-- Whether rows are read as they are, but for the right-hand sides of slots. -/
structure Row.IsReading (read : Row S → Row S) : Prop where
  body : ∀ r, (read r).body = r.body
  unchanged : ∀ r, r.name.isSlot = false → read r = r

theorem Row.isReading_id : IsReading (id : Row S → Row S) :=
  ⟨fun _ => rfl, fun _ _ => rfl⟩

theorem Row.isReading_asRead [Neg S] [LT S] [DecidableLT S] (limit : S) :
    IsReading (Row.asRead limit) := by
  refine ⟨fun r => ?_, fun _ => asRead_of_not_isSlot⟩
  unfold asRead
  split <;> rfl

namespace StageProgram

/-- The objectives of the feasible points of a program. -/
def values [Zero S] [One S] [Neg S] [Add S] [Mul S]
    (feasible : StageProgram S → (Column → S) → Prop) (p : StageProgram S) : Set S :=
  {y | ∃ point, feasible p point ∧ p.value point = y}

variable [Scalar S] [CommRing S] [LinearOrder S]

/-- Whether a point is feasible if the rows are read in some way. -/
def IsFeasibleAs (read : Row S → Row S) (p : StageProgram S) (point : Column → S) : Prop :=
  p.KeepsToBoxes point ∧ ∀ r ∈ p.rows, (read r).Holds p.noiseAt point

/-- Whether the second of two programs is at least as tight as the first. What is feasible for the
second is feasible for the first and has the same objective, and what is feasible for the first
becomes so for the second when the future cost is raised and nothing else is changed. So no bound on
the objective is lost, and the least objective does not go down. -/
structure Tightens (feasible : StageProgram S → (Column → S) → Prop) (p q : StageProgram S) :
    Prop where
  relaxes : ∀ point, feasible q point → feasible p point ∧ p.value point = q.value point
  raises : ∀ point, feasible p point →
    ∃ future, point .future ≤ future ∧ feasible q (update point .future future)
  bounds : lowerBounds (p.values feasible) ⊆ lowerBounds (q.values feasible)
  optimum : ∀ a b, IsGLB (p.values feasible) a → IsGLB (q.values feasible) b → a ≤ b

variable {p : StageProgram S} {read : Row S → Row S} {point : Column → S} {future : S}

omit [Scalar S] [LinearOrder S] in
theorem ignores_stateRows (p : StageProgram S) : ∀ r ∈ p.stateRows, r.body.Ignores .future := by
  simp only [stateRows, forall_mem_map_zipIdx]
  intro i sides _
  exact Expr.ignores_ofColumn Column.noConfusion

omit [Scalar S] in
theorem holds_update_future_iff {w : Nat → S} (hread : Row.IsReading read) {rows : List (Row S)}
    (h : ∀ r ∈ rows, r.body.Ignores .future) :
    (∀ r ∈ rows, (read r).Holds w (update point .future future)) ↔
      ∀ r ∈ rows, (read r).Holds w point := by
  refine forall₂_congr fun r hr => ?_
  have hbody : (read r).body.Ignores .future := by
    rw [hread.body]
    exact h r hr
  rw [Row.Holds, Row.Holds, hbody.eval_update]

theorem KeepsToBoxes.raise (h : p.KeepsToBoxes point) (hle : point .future ≤ future) :
    p.KeepsToBoxes (update point .future future) := by
  obtain ⟨stateBoxes, controlBoxes, hs, hc, hstates, hcontrols, hfuture⟩ := keepsToBoxes_iff.mp h
  refine keepsToBoxes_iff.mpr ⟨stateBoxes, controlBoxes, hs, hc, ?_, ?_, ?_⟩
  · intro i b hb
    rw [update_of_ne Column.noConfusion, update_of_ne Column.noConfusion]
    exact hstates i b hb
  · intro j b hb
    rw [update_of_ne Column.noConfusion]
    exact hcontrols j b hb
  · rw [update_self]
    exact hfuture.trans hle

omit [Scalar S] [CommRing S] [LinearOrder S] in
/-- The cuts are written over states, not over the future cost. -/
theorem cutColumn_ne_future (p : StageProgram S) (i : Nat) : p.cutColumn i ≠ .future := by
  unfold cutColumn
  split <;> exact Column.noConfusion

/-- The value of a cut at the state of a point. -/
def cutValue (p : StageProgram S) (point : Column → S) (c : Cut S) : S :=
  c.evaluate ((List.range c.dim).map fun i => point (p.cutColumn i))

omit [Scalar S] [LinearOrder S] in
theorem cutValue_update_future (p : StageProgram S) (point : Column → S) (future : S) (c : Cut S) :
    p.cutValue (update point .future future) c = p.cutValue point c := by
  simp only [cutValue, update_of_ne (p.cutColumn_ne_future _)]

variable [IsStrictOrderedRing S]

theorem isFeasibleAs_iff (hread : Row.IsReading read) :
    p.IsFeasibleAs read point ↔ p.KeepsToBoxes point ∧
      (∀ r ∈ p.stateRows, r.Holds p.noiseAt point) ∧
      (∀ r ∈ p.body.rows, (read r).Holds p.noiseAt point) ∧
      ∀ c ∈ p.cuts, p.cutValue point c ≤ point .future :=
  and_congr_right fun _ => holds_rows_iff p p.noiseAt point hread.unchanged

/-- A feasible point is feasible under other cuts with any future cost that is no lower than it was
and no lower than the new cuts. -/
theorem IsFeasibleAs.raise (hread : Row.IsReading read)
    (hignores : ∀ e ∈ p.body.exprs, e.Ignores .future) (h : p.IsFeasibleAs read point)
    {cuts : List (Cut S)} (hle : point .future ≤ future)
    (hcuts : ∀ c ∈ cuts, p.cutValue point c ≤ future) :
    (p.withCuts cuts).IsFeasibleAs read (update point .future future) := by
  obtain ⟨hboxes, hstate, hbody, -⟩ := (isFeasibleAs_iff hread).mp h
  refine (isFeasibleAs_iff hread).mpr ⟨hboxes.raise hle, ?_, ?_, ?_⟩
  · exact (holds_update_future_iff Row.isReading_id p.ignores_stateRows).mpr hstate
  · exact (holds_update_future_iff hread (Body.ignores_rows hignores)).mpr hbody
  · intro c hc
    rw [cutValue_update_future, update_self]
    exact hcuts c hc

/-- A feasible point becomes feasible under whatever cuts when its future cost is raised. -/
theorem IsFeasibleAs.exists_raised (hread : Row.IsReading read)
    (hignores : ∀ e ∈ p.body.exprs, e.Ignores .future) (h : p.IsFeasibleAs read point)
    (cuts : List (Cut S)) :
    ∃ future, point .future ≤ future ∧
      (p.withCuts cuts).IsFeasibleAs read (update point .future future) := by
  obtain ⟨future, hfuture⟩ := Set.Finite.bddAbove
    (List.finite_toSet (point .future :: cuts.map (p.cutValue point)))
  have hle : point .future ≤ future := hfuture List.mem_cons_self
  refine ⟨future, hle, h.raise hread hignores hle ?_⟩
  intro c hc
  exact hfuture (List.mem_cons_of_mem _ (List.mem_map_of_mem hc))

theorem IsFeasibleAs.of_more (hread : Row.IsReading read) {more : List (Cut S)}
    (h : (p.withCuts (p.cuts ++ more)).IsFeasibleAs read point) : p.IsFeasibleAs read point := by
  obtain ⟨hboxes, hstate, hbody, hcuts⟩ := (isFeasibleAs_iff hread).mp h
  refine (isFeasibleAs_iff hread).mpr ⟨hboxes, hstate, hbody, fun c hc => ?_⟩
  exact hcuts c (List.mem_append_left more hc)

/-- More cuts make a program tighter. -/
theorem tightens_withCuts (hread : Row.IsReading read)
    (hignores : ∀ e ∈ p.body.exprs, e.Ignores .future) (more : List (Cut S)) :
    Tightens (IsFeasibleAs read) p (p.withCuts (p.cuts ++ more)) := by
  have relaxes : ∀ point, (p.withCuts (p.cuts ++ more)).IsFeasibleAs read point →
      p.IsFeasibleAs read point ∧ p.value point = (p.withCuts (p.cuts ++ more)).value point :=
    fun point h => ⟨.of_more hread h, rfl⟩
  have bounds : lowerBounds (p.values (IsFeasibleAs read)) ⊆
      lowerBounds ((p.withCuts (p.cuts ++ more)).values (IsFeasibleAs read)) := by
    apply lowerBounds_mono_set
    rintro _ ⟨point, hpoint, rfl⟩
    exact ⟨point, relaxes point hpoint⟩
  exact ⟨relaxes, fun point h => h.exists_raised hread hignores _, bounds,
    fun a b ha hb => hb.2 (bounds ha.1)⟩

/-- Whether there is a feasible point does not depend on the cuts. -/
theorem exists_feasible_withCuts_iff (hread : Row.IsReading read)
    (hignores : ∀ e ∈ p.body.exprs, e.Ignores .future) (cuts : List (Cut S)) :
    (∃ point, (p.withCuts cuts).IsFeasibleAs read point) ↔ ∃ point, p.IsFeasibleAs read point := by
  constructor
  · rintro ⟨point, h⟩
    obtain ⟨future, -, hfuture⟩ := h.exists_raised (p := p.withCuts cuts) hread hignores p.cuts
    exact ⟨_, hfuture⟩
  · rintro ⟨point, h⟩
    obtain ⟨future, -, hfuture⟩ := h.exists_raised hread hignores cuts
    exact ⟨_, hfuture⟩

end StageProgram

end Bellman
