import Bellman.Proofs.Exact
import Bellman.Proofs.Program.Duality
import Mathlib.Data.Int.Cast.Lemmas
import Mathlib.Data.List.TakeWhile

/-!
# The step that is stored in a model

A backend reports values of columns and duals of the state rows, some of them as plain numbers. If
what it reports is a certified point, then the step that is put together from the reports has the
objective of that point and the prices of the state rows.
-/

namespace Bellman

open Data

variable {S : Type} [Scalar S] [CommRing S]

namespace Reported

theorem foldlM_read {reported : List (Reported S)} {values : List S}
    (h : List.Forall₂ (fun r s => r.read = .ok s) reported values) (start : S) :
    reported.foldlM (fun s r => do return s + (← r.read)) start =
      (.ok (start + values.sum) : Except Fault S) := by
  induction h generalizing start with
  | nil => simp
  | cons hr _ ih =>
      simp only [List.foldlM_cons, hr, ok_bind, pure_bind, ih, List.sum_cons, add_assoc]

theorem read_of_whole [Scalar.IsExact S] {r : Reported S} {i : Int} (h : r.whole? = some i) :
    r.read = .ok (i : S) := by
  cases r with
  | scalar s => cases h
  | plain n => exact Scalar.IsExact.read_whole n i h

/-- Whole numbers have the sum that the scalars have which they are read as. -/
theorem cast_sum_whole [Scalar.IsExact S] {reported : List (Reported S)} {values : List S}
    (h : List.Forall₂ (fun r s => r.read = .ok s) reported values)
    (hwhole : ∀ r ∈ reported, r.whole?.isSome) :
    (((reported.filterMap whole?).sum : Int) : S) = values.sum := by
  induction h with
  | nil => simp
  | cons hr _ ih =>
      obtain ⟨hfirst, hrest⟩ := List.forall_mem_cons.mp hwhole
      obtain ⟨i, hi⟩ := Option.isSome_iff_exists.mp hfirst
      obtain rfl := Except.ok.inj ((read_of_whole hi).symm.trans hr)
      rw [List.filterMap_cons_some hi, List.sum_cons, List.sum_cons, Int.cast_add, ih hrest]

/-- Reports add up to the sum of the scalars that they are read as. -/
theorem sum_eq_of_read [Scalar.IsExact S] {reported : List (Reported S)} {values : List S}
    (h : List.Forall₂ (fun r s => r.read = .ok s) reported values) :
    sum reported = .ok values.sum := by
  unfold sum
  generalize hfront : reported.takeWhile (·.whole?.isSome) = front
  have htake : front = reported.take front.length :=
    List.prefix_iff_eq_take.mp (hfront ▸ List.takeWhile_prefix _)
  have hread : List.Forall₂ (fun r s => r.read = .ok s) front (values.take front.length) := by
    have htaken := List.forall₂_take front.length h
    rwa [← htake] at htaken
  have hwhole : ∀ r ∈ front, r.whole?.isSome := by
    intro r hr
    rw [← hfront] at hr
    exact List.mem_takeWhile_imp (p := fun r : Reported S => r.whole?.isSome) hr
  cases front with
  | nil =>
      simp only [List.isEmpty_nil, if_true, pure_bind, List.length_nil, List.drop_zero]
      rw [foldlM_read h, zero_add]
  | cons r front =>
      have hstart : (Scalar.read (.int ((List.filterMap whole? (r :: front)).foldl (· + ·) 0)) :
          Except Fault S) = .ok (values.take (r :: front).length).sum := by
        rw [← cast_sum_whole hread hwhole, List.sum_eq_foldl]
        exact Scalar.IsExact.read_whole _ _ rfl
      simp only [List.isEmpty_cons, Bool.false_eq_true, if_false, hstart, ok_bind]
      rw [foldlM_read (List.forall₂_drop _ h), ← List.sum_append, List.take_append_drop]

end Reported

namespace Solution

/-- Whether a solution reports the point of a certificate, and the prices of the state rows as the
rates at which the objective changes with the state. -/
structure Reports (sol : Solution S) (c : Certificate S) : Prop where
  values : ∀ cb ∈ c.columns, ∃ r, sol.value? cb.1 = some r ∧ r.read = .ok (c.point cb.1)
  duals : ∀ (i : Nat) (y : Price S), c.statePrices[i]? = some y →
    ∃ r, sol.dual? i = some r ∧ r.read = .ok y.net

omit [Scalar S] [CommRing S] in
theorem value?_store {old sol : Solution S} {c : Column} {r : Reported S}
    (h : sol.value? c = some r) : (old.store sol).value? c = some r := by
  have hlookup := Option.join_eq_some_iff.mp h
  simp only [value?, store, List.lookup_append, hlookup, Option.some_or, Option.join_some]

omit [Scalar S] [CommRing S] in
theorem dual?_store {old sol : Solution S} {i : Nat} {r : Reported S} (h : sol.dual? i = some r) :
    (old.store sol).dual? i = some r := by
  have hget := Option.join_eq_some_iff.mp h
  obtain ⟨hlt, -⟩ := List.getElem?_eq_some_iff.mp hget
  simp only [dual?, store, List.getElem?_append_left hlt, hget, Option.join_some]

/-- What is reported is what is stored, whatever was stored before. -/
theorem Reports.store {sol : Solution S} {c : Certificate S} (h : sol.Reports c)
    (old : Solution S) : (old.store sol).Reports c := by
  refine ⟨fun cb hcb => ?_, fun i y hy => ?_⟩
  · obtain ⟨r, hr, hread⟩ := h.values cb hcb
    exact ⟨r, value?_store hr, hread⟩
  · obtain ⟨r, hr, hread⟩ := h.duals i y hy
    exact ⟨r, dual?_store hr, hread⟩

end Solution

/-- What is assumed of a reply: if it is optimal, it stores a point of the program together with
duals of the state rows, and there are prices with which they prove that the point is optimal. -/
def Reply.IsCertified [LinearOrder S] (limit : S) (p : StageProgram S) : Reply S → Prop
  | .ended .optimal _ stored =>
    ∃ sol c, stored = some sol ∧ Certificate.Proves limit p c ∧ sol.Reports c
  | _ => True

/-- The step of a program to the point of a certificate. -/
def Certificate.step (p : StageProgram S) (c : Certificate S) : Step S where
  nextState := (List.range p.dimStates).map fun i => c.point (.nextState i)
  control := (List.range p.controlBounds.length).map fun j => c.point (.control j)
  dualState := c.statePrices.map Price.net
  objective := p.value c.point
  futureCost := c.point .future

namespace StageModel

variable [LinearOrder S] {m : StageModel S} {c : Certificate S}

omit [LinearOrder S] in
theorem storedValue_of_reports (h : m.stored.Reports c) (column : Column)
    (hcolumn : column ∈ c.columns.map Prod.fst) :
    ∃ r, m.storedValue column = .ok r ∧ r.read = .ok (c.point column) := by
  obtain ⟨cb, hcb, rfl⟩ := List.mem_map.mp hcolumn
  obtain ⟨r, hr, hread⟩ := h.values cb hcb
  exact ⟨r, by simp only [storedValue, hr], hread⟩

omit [LinearOrder S] in
theorem storedValues_of_reports (h : m.stored.Reports c) (column : Nat → Column) {n : Nat}
    (hcolumns : ∀ i < n, column i ∈ c.columns.map Prod.fst) :
    ((List.range n).mapM fun i => do (← m.storedValue (column i)).read) =
      .ok ((List.range n).map fun i => c.point (column i)) := by
  refine mapM_eq_ok.mpr (List.forall₂_map_right_iff.mpr (List.forall₂_same.mpr fun i hi => ?_))
  obtain ⟨r, hr, hread⟩ := storedValue_of_reports h (column i) (hcolumns i (List.mem_range.mp hi))
  simp only [hr, ok_bind, hread]

/-- A term comes to its value at the point that is reported. A column with the factor one is passed
on as it was reported. -/
theorem storedTerm_of_reports (h : m.stored.Reports c) {t : Term S}
    (hcolumn : ∀ x, t = .multiple x → x.column ∈ c.columns.map Prod.fst) :
    ∃ r, m.storedTerm t = .ok r ∧ r.read = .ok (t.eval m.program.noiseAt c.point) := by
  cases t with
  | weight x => exact ⟨_, rfl, rfl⟩
  | multiple x =>
      obtain ⟨r, hr, hread⟩ := storedValue_of_reports h x.column (hcolumn x rfl)
      simp only [storedTerm, hr, ok_bind, hread, Term.eval]
      cases x with
      | single s column =>
          by_cases hs : isOne s
          · obtain rfl : s = 1 := by
              simp only [isOne, Bool.and_eq_true, decide_eq_true_eq] at hs
              exact le_antisymm hs.1 hs.2
            refine ⟨r, by simp only [hs, if_true]; rfl, ?_⟩
            rw [hread, Multiple.eval, one_mul]
          · exact ⟨_, by simp only [hs]; rfl, rfl⟩
      | weighted y column => exact ⟨_, rfl, rfl⟩
      | scaled s y => exact ⟨_, rfl, rfl⟩
      | times y k => exact ⟨_, rfl, rfl⟩

/-- The terms of the objective add up to the objective at the point that is reported. -/
theorem storedObjective_of_reports [Scalar.IsExact S] (h : m.stored.Reports c)
    (hobjective : ∀ x, .multiple x ∈ m.program.objective → x.column ∈ c.columns.map Prod.fst) :
    ∃ reported, m.program.objective.mapM m.storedTerm = .ok reported ∧
      Reported.sum reported = .ok (m.program.value c.point) := by
  obtain ⟨reported, hreported⟩ := exists_forall₂_of_forall_mem fun t ht =>
    storedTerm_of_reports h (t := t) fun x hx => hobjective x (hx ▸ ht)
  have hread : List.Forall₂ (fun r s => r.read = .ok s) reported
      (m.program.objective.map (Term.eval m.program.noiseAt c.point)) :=
    List.forall₂_map_right_iff.mpr (hreported.flip.imp fun _ _ h => h.2)
  refine ⟨reported, mapM_eq_ok.mpr (hreported.imp fun _ _ h => h.1), ?_⟩
  rw [Reported.sum_eq_of_read hread, StageProgram.value, Expr.eval, total_eq_sum]

omit [LinearOrder S] in
theorem storedDuals_of_reports (h : m.stored.Reports c) {n : Nat} (hn : c.statePrices.length = n)
    (solver : String) (termination : Option String) :
    ((List.range n).mapM fun i =>
      match m.stored.dual? i with
      | some d => d.read
      | none => .error (.missingDual solver (RowName.stateFix i).text termination)) =
      .ok (c.statePrices.map Price.net) := by
  refine mapM_eq_ok.mpr (List.forall₂_iff_get.mpr ⟨by simp [hn], fun i h₁ h₂ => ?_⟩)
  have hi : i < c.statePrices.length := by simpa using h₂
  obtain ⟨r, hr, hread⟩ := h.duals i c.statePrices[i] (List.getElem?_eq_getElem hi)
  simp only [List.get_eq_getElem, List.getElem_range, List.getElem_map, hr, hread]

/-- If the point and the prices of a certificate are reported, the step is the one to that point. -/
theorem storedStep_of_reports [Scalar.IsExact S] (h : m.stored.Reports c)
    (hcolumns : m.program.columns = .ok c.columns)
    (hduals : c.statePrices.length = m.program.dimStates)
    (hstates : m.program.stateBounds.length = m.program.dimStates)
    (hobjective : ∀ x, .multiple x ∈ m.program.objective → m.program.HasColumn x.column)
    (solver : String) (termination : Option String) :
    m.storedStep solver termination = .ok (c.step m.program) := by
  have hnext := storedValues_of_reports h .nextState (n := m.program.dimStates)
    fun i hi => StageProgram.HasColumn.mem_columns hcolumns (hi.trans_eq hstates.symm)
  have hcontrol := storedValues_of_reports h .control (n := m.program.controlBounds.length)
    fun j hj => StageProgram.HasColumn.mem_columns hcolumns hj
  obtain ⟨reported, hreported, hsum⟩ := storedObjective_of_reports h
    fun x hx => (hobjective x hx).mem_columns hcolumns
  obtain ⟨future, hfuture, hread⟩ := storedValue_of_reports h .future
    (StageProgram.HasColumn.mem_columns hcolumns trivial)
  unfold storedStep
  refine bind_eq_ok.mpr ⟨_, storedDuals_of_reports h hduals solver termination, ?_⟩
  simp only [hnext, hcontrol, hreported, hsum, hfuture, hread, ok_bind]
  rfl

omit [CommRing S] [LinearOrder S] in
/-- A step is what is stored after an optimal reply. -/
theorem storedStep_of_receive [Zero S] [One S] [Add S] [Mul S] [LE S] [DecidableLE S]
    {m : StageModel S} {solver : String} {r : Request S} {reply : Reply S} {step : Step S}
    (h : (m.receive solver r reply).2.2 = .ok (.step step)) :
    ∃ termination stored, reply = .ended .optimal termination stored ∧
      ({ m with answers := m.answers + 1, stored := m.stored.store (stored.getD {}) } :
        StageModel S).storedStep solver termination = .ok step := by
  cases reply with
  | failed cause => cases h
  | ended status termination stored =>
      simp only [receive, conclude] at h
      cases status with
      | optimal =>
          dsimp only at h
          split at h
          · next step' hstored =>
              obtain rfl := Outcome.step.inj (Except.ok.inj h)
              exact ⟨termination, stored, rfl, hstored⟩
          · cases h
      | _ => cases h

/-- If replies are certified, a step is the one to a point that is proved optimal, with the prices
of the state rows. -/
theorem step_of_certified [Scalar.IsExact S] {limit : S} {solver : String} {r : Request S}
    {reply : Reply S} {step : Step S} (hreply : reply.IsCertified limit m.program)
    (hstates : m.program.stateBounds.length = m.program.dimStates)
    (hobjective : ∀ x, .multiple x ∈ m.program.objective → m.program.HasColumn x.column)
    (h : (m.receive solver r reply).2.2 = .ok (.step step)) :
    ∃ c : Certificate S, c.Proves limit m.program ∧ step = c.step m.program := by
  obtain ⟨termination, stored, rfl, hstored⟩ := storedStep_of_receive h
  obtain ⟨sol, c, rfl, hproves, hreports⟩ := hreply
  have hstep := storedStep_of_reports
    (m := { m with answers := m.answers + 1, stored := m.stored.store sol })
    (hreports.store m.stored) hproves.columns hproves.length_statePrices hstates hobjective solver
    termination
  exact ⟨c, hproves, Except.ok.inj (hstored.symm.trans hstep)⟩

end StageModel

end Bellman
