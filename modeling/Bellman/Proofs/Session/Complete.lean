import Bellman.Proofs.Session.StoredStep

/-!
# Complete solutions

A backend that ends with an optimum may store less than a step needs. If it stores a number for
every column of the step and for every variable of the objective, and a dual for every row that
holds the state, then there is a step. Nothing is assumed of the numbers but that they can be read,
and that the sum can which whole numbers have.
-/

namespace Bellman

open Data

variable {S : Type}

namespace Solution

variable [Scalar S]

/-- Whether a solution has a number for a column that can be read. -/
def Has (sol : Solution S) (c : Column) : Prop :=
  ∃ v s, sol.value? c = some v ∧ v.read = .ok s

/-- Whether a solution has all that the step of a program needs. -/
structure IsComplete [One S] (p : StageProgram S) (sol : Solution S) : Prop where
  nextState : ∀ i < p.dimStates, sol.Has (.nextState i)
  control : ∀ j < p.controlBounds.length, sol.Has (.control j)
  future : sol.Has .future
  objective : ∀ x, .multiple x ∈ p.objective → sol.Has x.column
  dual : ∀ i < p.dimStates, ∃ v s, sol.dual? i = some v ∧ v.read = .ok s
  /-- The whole numbers among the values that may come together in the objective have a sum that can
  be read. -/
  wholes : ∀ values : List (Reported S), values.length ≤ p.objective.length →
    (∀ v ∈ values, ∃ c, sol.value? c = some v) →
    ∃ s : S, Scalar.read (.int (values.filterMap Reported.whole?).sum) = .ok s

end Solution

/-- Whether a reply is conclusive: the program has no solution, or a complete one is stored. -/
def Reply.IsConclusive [Scalar S] [One S] (p : StageProgram S) : Reply S → Prop
  | .ended .infeasible _ _ => True
  | .ended .optimal _ stored => ∃ sol, stored = some sol ∧ sol.IsComplete p
  | _ => False

namespace Reported

variable [Scalar S] [Add S] {reported : List (Reported S)}

theorem exists_foldlM (h : ∀ r ∈ reported, ∃ s : S, r.read = .ok s) (start : S) :
    ∃ s, reported.foldlM (fun s r => do return s + (← r.read)) start =
      (.ok s : Except Fault S) := by
  induction reported generalizing start with
  | nil => exact ⟨start, rfl⟩
  | cons r reported ih =>
      obtain ⟨⟨s, hs⟩, hrest⟩ := List.forall_mem_cons.mp h
      obtain ⟨sum, hsum⟩ := ih hrest (start + s)
      refine ⟨sum, ?_⟩
      simp only [List.foldlM_cons, hs, ok_bind, pure_bind, hsum]

/-- There is a sum if every number can be read, and so can the sum of the whole ones at the front.
-/
theorem exists_sum [Zero S] (h : ∀ r ∈ reported, ∃ s : S, r.read = .ok s)
    (hwholes : ∃ s : S, Scalar.read
      (.int ((reported.takeWhile (·.whole?.isSome)).filterMap whole?).sum) = .ok s) :
    ∃ s, sum reported = .ok s := by
  obtain ⟨start, hstart⟩ := hwholes
  have hrest := fun r hr =>
    h r (List.mem_of_mem_drop (i := (reported.takeWhile (·.whole?.isSome)).length) hr)
  unfold sum
  rw [List.sum_eq_foldl] at hstart
  by_cases hnone : (reported.takeWhile (·.whole?.isSome)).isEmpty
  · simp only [hnone, if_true, pure_bind]
    exact exists_foldlM hrest 0
  · simp only [hnone, hstart, ok_bind]
    exact exists_foldlM hrest start

end Reported

namespace StageModel

variable [Scalar S] [Zero S] [One S] [Add S] [Mul S] [LE S] [DecidableLE S]
variable {m : StageModel S} {old sol : Solution S} {c : Column}

omit [Zero S] [One S] [Add S] [Mul S] [LE S] [DecidableLE S] in
theorem storedValue_of_has (hstored : m.stored = old.store sol) (h : sol.Has c) :
    ∃ v s, m.storedValue c = .ok v ∧ sol.value? c = some v ∧ v.read = .ok s := by
  obtain ⟨v, s, hv, hs⟩ := h
  refine ⟨v, s, ?_, hv, hs⟩
  simp only [storedValue, hstored, Solution.value?_store hv]

omit [Add S] in
/-- A term comes to a number that can be read; if it is a whole one, it is the value of a column. -/
theorem exists_storedTerm (hstored : m.stored = old.store sol) {t : Term S}
    (h : ∀ x, t = .multiple x → sol.Has x.column) :
    ∃ r, m.storedTerm t = .ok r ∧ (∃ s, r.read = .ok s) ∧
      (r.whole?.isSome → ∃ c, sol.value? c = some r) := by
  cases t with
  | weight x => exact ⟨_, rfl, ⟨_, rfl⟩, fun h => by cases h⟩
  | multiple x =>
      obtain ⟨v, s, hvalue, hv, hs⟩ := storedValue_of_has hstored (h x rfl)
      simp only [storedTerm, hvalue, ok_bind]
      cases x with
      | single a column =>
          by_cases ha : isOne a
          · exact ⟨v, by simp only [ha, if_true]; rfl, ⟨s, hs⟩, fun _ => ⟨_, hv⟩⟩
          · exact ⟨_, by simp only [ha, hs]; rfl, ⟨_, rfl⟩, fun h => by cases h⟩
      | weighted y column =>
          exact ⟨_, by simp only [hs]; rfl, ⟨_, rfl⟩, fun h => by cases h⟩
      | scaled a y => exact ⟨_, by simp only [hs]; rfl, ⟨_, rfl⟩, fun h => by cases h⟩
      | times y k => exact ⟨_, by simp only [hs]; rfl, ⟨_, rfl⟩, fun h => by cases h⟩

/-- If a complete solution is stored, the objective has a value. -/
theorem exists_storedObjective (hstored : m.stored = old.store sol)
    (hsol : sol.IsComplete m.program) :
    ∃ reported s, m.program.objective.mapM m.storedTerm = .ok reported ∧
      Reported.sum reported = .ok s := by
  obtain ⟨reported, hreported⟩ := exists_forall₂_of_forall_mem fun t ht =>
    exists_storedTerm hstored (t := t) fun x hx => hsol.objective x (hx ▸ ht)
  have hread : ∀ r ∈ reported, ∃ s, r.read = .ok s := by
    intro r hr
    obtain ⟨t, -, ht⟩ := exists_of_mem_forall₂ hreported hr
    exact ht.2.1
  have hfront : ∀ r ∈ reported.takeWhile (·.whole?.isSome), ∃ c, sol.value? c = some r := by
    intro r hr
    obtain ⟨t, -, ht⟩ := exists_of_mem_forall₂ hreported ((List.takeWhile_sublist _).subset hr)
    exact ht.2.2 (List.mem_takeWhile_imp (p := fun r : Reported S => r.whole?.isSome) hr)
  have hlength : (reported.takeWhile (·.whole?.isSome)).length ≤ m.program.objective.length :=
    (List.takeWhile_sublist _).length_le.trans_eq hreported.length_eq.symm
  obtain ⟨s, hs⟩ := Reported.exists_sum hread (hsol.wholes _ hlength hfront)
  exact ⟨reported, s, mapM_eq_ok.mpr (hreported.imp fun _ _ h => h.1), hs⟩

omit [Zero S] [Add S] [Mul S] [LE S] [DecidableLE S] in
theorem exists_storedDuals (hstored : m.stored = old.store sol) (hsol : sol.IsComplete m.program)
    (solver : String) (termination : Option String) :
    ∃ duals, ((List.range m.program.dimStates).mapM fun i =>
      match m.stored.dual? i with
      | some d => d.read
      | none => .error (.missingDual solver (RowName.stateFix i).text termination)) =
        .ok duals := by
  apply exists_mapM_of_forall_mem
  intro i hi
  obtain ⟨v, s, hv, hs⟩ := hsol.dual i (List.mem_range.mp hi)
  have hdual : m.stored.dual? i = some v := by
    rw [hstored]
    exact Solution.dual?_store hv
  exact ⟨s, by simp only [hdual, hs]⟩

/-- If a complete solution is stored, there is a step. -/
theorem exists_storedStep (hstored : m.stored = old.store sol) (hsol : sol.IsComplete m.program)
    (solver : String) (termination : Option String) :
    ∃ step, m.storedStep solver termination = .ok step := by
  have hvalues : ∀ column : Nat → Column, ∀ n, (∀ i < n, sol.Has (column i)) →
      ∃ xs, ((List.range n).mapM fun i => do (← m.storedValue (column i)).read) = .ok xs := by
    intro column n h
    apply exists_mapM_of_forall_mem
    intro i hi
    obtain ⟨v, s, hvalue, -, hs⟩ := storedValue_of_has hstored (h i (List.mem_range.mp hi))
    exact ⟨s, by simp only [hvalue, ok_bind, hs]⟩
  obtain ⟨duals, hduals⟩ := exists_storedDuals hstored hsol solver termination
  obtain ⟨next, hnext⟩ := hvalues .nextState _ hsol.nextState
  obtain ⟨control, hcontrol⟩ := hvalues .control _ hsol.control
  obtain ⟨reported, objective, hreported, hsum⟩ := exists_storedObjective hstored hsol
  obtain ⟨v, future, hvalue, -, hfuture⟩ := storedValue_of_has hstored hsol.future
  refine ⟨⟨next, control, duals, objective, future⟩, ?_⟩
  unfold storedStep
  refine bind_eq_ok.mpr ⟨duals, hduals, ?_⟩
  simp only [hnext, hcontrol, hreported, hsum, hvalue, hfuture, ok_bind]
  rfl

/-- A conclusive reply has an outcome. -/
theorem exists_receive {reply : Reply S} (h : reply.IsConclusive m.program) (solver : String)
    (r : Request S) : ∃ o, (m.receive solver r reply).2.2 = .ok o := by
  cases reply with
  | failed cause => exact h.elim
  | ended status termination stored =>
      cases status with
      | infeasible => exact ⟨_, rfl⟩
      | optimal =>
          obtain ⟨sol, rfl, hsol⟩ := h
          obtain ⟨step, hstep⟩ := exists_storedStep
            (m := { m with answers := m.answers + 1, stored := m.stored.store sol }) rfl hsol solver
            termination
          refine ⟨.step step, ?_⟩
          simp only [receive, conclude, Option.getD_some, hstep]
      | _ => exact h.elim

end StageModel

namespace Stock

/-- The columns that the step of a program needs. -/
def neededColumns (p : StageProgram ℚ) : List Column :=
  (List.range p.dimStates).map .nextState ++ (List.range p.controlBounds.length).map .control ++
    [.future] ++ p.objective.filterMap fun t =>
      match t with
      | .weight _ => none
      | .multiple x => some x.column

/-- A solution of zeros. -/
def zeros (p : StageProgram ℚ) : Solution ℚ where
  values := (neededColumns p).map fun c => (c, some (.scalar 0))
  duals := List.replicate p.dimStates (some (.scalar 0))

theorem lookup_map_const {α : Type} {columns : List Column} {c : Column} {a : α} :
    (columns.map fun c => (c, a)).lookup c = if c ∈ columns then some a else none := by
  induction columns with
  | nil => rfl
  | cons first columns ih =>
      by_cases hc : c = first
      · simp [hc]
      · simp [List.lookup_cons, hc, ih, beq_eq_false_iff_ne.mpr hc]

theorem value?_zeros (p : StageProgram ℚ) (c : Column) :
    (zeros p).value? c = if c ∈ neededColumns p then some (.scalar 0) else none := by
  rw [Solution.value?, zeros, lookup_map_const]
  split <;> rfl

theorem has_zeros {p : StageProgram ℚ} {c : Column} (h : c ∈ neededColumns p) :
    (zeros p).Has c :=
  ⟨.scalar 0, 0, by rw [value?_zeros, if_pos h], rfl⟩

/-- A solution of zeros is complete for every program. -/
theorem isComplete_zeros (p : StageProgram ℚ) : (zeros p).IsComplete p where
  nextState i hi := has_zeros (by simp [neededColumns, hi])
  control j hj := has_zeros (by simp [neededColumns, hj])
  future := has_zeros (by simp [neededColumns])
  objective x hx := by
    apply has_zeros
    simp only [neededColumns, List.mem_append, List.mem_filterMap]
    exact .inr ⟨.multiple x, hx, rfl⟩
  dual i hi := by
    refine ⟨.scalar 0, 0, ?_, rfl⟩
    simp [Solution.dual?, zeros, hi]
  wholes values _ hvalues := by
    have hnone : values.filterMap Reported.whole? = [] := by
      rw [List.filterMap_eq_nil_iff]
      intro v hv
      obtain ⟨c, hc⟩ := hvalues v hv
      rw [value?_zeros] at hc
      split at hc
      · rw [← Option.some.inj hc]
        rfl
      · cases hc
    rw [hnone]
    exact ⟨0, rfl⟩

end Stock

end Bellman
