import Bellman.Proofs.Program.Build

/-!
# What the body of a program consists of

A body in which the noise is a variable holds the rows that the problem gives for such a view. A
slotted body holds one slot for every value of the noise, with the rows that the problem gives for
that value, all of them pinned. Either way the conditions for a body to be built are spelled out.
-/

namespace Bellman

open Data

variable {S : Type}

/-- The cost of a body in which the noise is a variable, from the costs of the pieces. -/
def DirectCost.ofPieces (model : CostModel) (costs : List (Expr S)) : DirectCost S :=
  match model, costs with
  | .linear, [e] => .single e
  | _, es => .largest es

theorem DirectCost.mem_of_ofPieces {model : CostModel} {costs : List (Expr S)} {e : Expr S}
    (h : ofPieces model costs = .single e) : e ∈ costs := by
  unfold ofPieces at h
  split at h
  · obtain rfl := DirectCost.single.inj h
    exact List.mem_cons_self
  · cases h

namespace Body

variable [One S] {r : DirectRows S}

theorem cost_of_single {e : Expr S} (h : r.cost = .single e) : (direct r).cost = e := by
  obtain ⟨_, _, _, cost⟩ := r
  obtain rfl : cost = .single e := h
  rfl

theorem cost_of_largest {pieces : List (Expr S)} (h : r.cost = .largest pieces) :
    (direct r).cost = [.ofColumn .cost] := by
  obtain ⟨_, _, _, cost⟩ := r
  obtain rfl : cost = .largest pieces := h
  rfl

omit [One S] in
theorem hasCost_of_largest {pieces : List (Expr S)} (h : r.cost = .largest pieces) :
    (direct r).hasCost = true := by
  obtain ⟨_, _, _, cost⟩ := r
  obtain rfl : cost = .largest pieces := h
  rfl

end Body

theorem Body.constraintRows_eq_ok_iff {rows rows' : List (Expr S)} :
    constraintRows rows = .ok rows' ↔ rows.any Expr.isConstant = false ∧ rows = rows' := by
  unfold constraintRows
  cases rows.any Expr.isConstant <;> simp

/-- The rows that a problem gives for a noise that is a variable. -/
structure DirectRows.IsBuilt (problem : Problem S) (stage : Int) (noises : Nat)
    (model : CostModel) (pieces : List (StageCost S)) (r : DirectRows S) : Prop where
  dynamics : problem.dynamics stage (.variables noises) = .ok r.dynamics
  count : (Value.num problem.states).isCount r.dynamics.length = true
  equalities : problem.equalities stage (.variables noises) = .ok r.equalities
  inequalities : problem.inequalities stage (.variables noises) = .ok r.inequalities
  equalities_mention : r.equalities.any Expr.isConstant = false
  inequalities_mention : r.inequalities.any Expr.isConstant = false
  cost : ∃ costs, pieces.mapM (fun piece => piece stage (.variables noises)) = .ok costs ∧
    r.cost = .ofPieces model costs

theorem Body.buildDirect_eq_ok_iff {problem : Problem S} {stage : Int} {noises : Nat}
    {model : CostModel} {pieces : List (StageCost S)} {body : Body S} :
    buildDirect problem stage noises model pieces = .ok body ↔
      ∃ r : DirectRows S, r.IsBuilt problem stage noises model pieces ∧ body = .direct r := by
  unfold buildDirect
  constructor
  · intro h
    simp only [bind_eq_ok] at h
    obtain ⟨dynamics, hdynamics, h⟩ := h
    by_cases hcount : (Value.num problem.states).isCount dynamics.length
    · simp only [hcount, Bool.not_true, Bool.false_eq_true, if_false, bind_eq_ok,
        constraintRows_eq_ok_iff, pure_eq_ok] at h
      obtain ⟨equalities, hequalities, _, ⟨hmention, rfl⟩, inequalities, hinequalities, _,
        ⟨hmention', rfl⟩, costs, hcosts, rfl⟩ := h
      exact ⟨⟨dynamics, equalities, inequalities, .ofPieces model costs⟩,
        ⟨hdynamics, hcount, hequalities, hinequalities, hmention, hmention', costs, hcosts, rfl⟩,
        rfl⟩
    · simp only [hcount] at h
      cases h
  · rintro ⟨⟨dynamics, equalities, inequalities, cost⟩, h, rfl⟩
    obtain ⟨costs, hcosts, rfl⟩ := h.cost
    simp only [h.dynamics, h.equalities, h.inequalities, hcosts, constraintRows,
      h.equalities_mention, h.inequalities_mention, h.count, ok_bind]
    rfl

/-- An affine problem gives scoped rows and costs. -/
theorem DirectRows.IsBuilt.areScoped {problem : Problem S} {stage : Int} {noises : Nat}
    {model : CostModel} {pieces : List (StageCost S)} {r : DirectRows S} {costs : List (Expr S)}
    {shape : Shape} (h : r.IsBuilt problem stage noises model pieces) (haffine : problem.IsAffine)
    (hshape : problem.HasShape shape)
    (hpieces : problem.costPieces = .ok (model, pieces))
    (hcosts : pieces.mapM (fun piece => piece stage (.variables noises)) = .ok costs) :
    (∀ e ∈ r.dynamics, e.IsScoped shape) ∧ (∀ e ∈ r.equalities, e.IsScoped shape) ∧
      (∀ e ∈ r.inequalities, e.IsScoped shape) ∧ ∀ e ∈ costs, e.IsScoped shape := by
  refine ⟨haffine.dynamics shape hshape _ _ _ h.dynamics,
    haffine.equalities shape hshape _ _ _ h.equalities,
    haffine.inequalities shape hshape _ _ _ h.inequalities, ?_⟩
  intro e he
  obtain ⟨piece, hpiece, heq⟩ := exists_of_mem_forall₂ (mapM_eq_ok.mp hcosts) he
  exact haffine.cost shape hshape model pieces hpieces piece hpiece _ _ e heq

/-- The slot that a problem gives for one value of the noise, held open by a sentinel. -/
structure NoiseSlot.IsBuilt [Neg S] (problem : Problem S) (stage : Int) (infinity : S)
    (pieces : List (StageCost S)) (w : List S) (slot : NoiseSlot S) : Prop where
  dynamics : problem.dynamics stage (.values w) = .ok slot.dynamics
  equalities : problem.equalities stage (.values w) = .ok slot.equalities
  inequalities : problem.inequalities stage (.values w) = .ok slot.inequalities
  pieces : pieces.mapM (fun piece => piece stage (.values w)) = .ok slot.pieces
  count : (Value.num problem.states).isCount slot.dynamics.length = true
  sides : slot.sides = Body.openSides infinity slot.dynamics.length slot.equalities.length
    slot.inequalities.length slot.pieces.length

/-- Whether all slots have the same number of equalities and of inequalities. -/
def NoiseSlot.AreEven (slots : List (NoiseSlot S)) : Prop :=
  (∃ n, ∀ slot ∈ slots, slot.equalities.length = n) ∧
    ∃ n, ∀ slot ∈ slots, slot.inequalities.length = n

namespace Body

/-- The slots that four lists of rows make up, before anything is counted. -/
def zipSlots [Neg S] (infinity : S)
    (dynamics equalities inequalities costs : List (List (Expr S))) : List (NoiseSlot S) :=
  (dynamics.zip (equalities.zip (inequalities.zip costs))).map fun (d, e, i, c) =>
    pinnedSlot infinity d e i c

variable [Neg S] {problem : Problem S} {stage : Int} {infinity : S} {pieces : List (StageCost S)}

/-- Rows that are given value by value make up slots in the same order. -/
theorem forall₂_isBuilt (infinity : S) {values : List (List S)}
    {dynamics equalities inequalities costs : List (List (Expr S))}
    (hdynamics : List.Forall₂ (fun w rows => problem.dynamics stage (.values w) = .ok rows)
      values dynamics)
    (hequalities : List.Forall₂ (fun w rows => problem.equalities stage (.values w) = .ok rows)
      values equalities)
    (hinequalities : List.Forall₂ (fun w rows => problem.inequalities stage (.values w) = .ok rows)
      values inequalities)
    (hcosts : List.Forall₂
      (fun w rows => pieces.mapM (fun piece => piece stage (.values w)) = .ok rows) values costs)
    (hcount : ∀ rows ∈ dynamics, (Value.num problem.states).isCount rows.length = true) :
    List.Forall₂ (NoiseSlot.IsBuilt problem stage infinity pieces) values
      (zipSlots infinity dynamics equalities inequalities costs) := by
  induction hdynamics generalizing equalities inequalities costs with
  | nil => exact .nil
  | cons hd _ ih =>
      cases hequalities with
      | cons he hequalities =>
      cases hinequalities with
      | cons hi hinequalities =>
      cases hcosts with
      | cons hc hcosts =>
      obtain ⟨hhead, hrest⟩ := List.forall_mem_cons.mp hcount
      exact .cons ⟨hd, he, hi, hc, hhead, rfl⟩ (ih hequalities hinequalities hcosts hrest)

/-- Slots that are given value by value come apart into their rows. -/
theorem zipSlots_of_isBuilt {values : List (List S)} {slots : List (NoiseSlot S)}
    (h : List.Forall₂ (NoiseSlot.IsBuilt problem stage infinity pieces) values slots) :
    zipSlots infinity (slots.map NoiseSlot.dynamics) (slots.map NoiseSlot.equalities)
      (slots.map NoiseSlot.inequalities) (slots.map NoiseSlot.pieces) = slots := by
  induction h with
  | nil => rfl
  | cons hslot _ ih =>
      simp only [zipSlots, List.map_cons, List.zip_cons_cons] at ih ⊢
      rw [ih, pinnedSlot, ← hslot.sides]

/-- The rows of one kind in slots that are given value by value. -/
theorem mapM_of_isBuilt {values : List (List S)} {slots : List (NoiseSlot S)} {α : Type}
    {rows : List S → Except Fault α} {part : NoiseSlot S → α}
    (h : List.Forall₂ (NoiseSlot.IsBuilt problem stage infinity pieces) values slots)
    (hpart : ∀ w slot, slot.IsBuilt problem stage infinity pieces w → rows w = .ok (part slot)) :
    values.mapM rows = .ok (slots.map part) :=
  mapM_eq_ok.mpr (List.forall₂_map_right_iff.mpr (h.imp hpart))

omit [Neg S] in
/-- Lists are all as long as the first one exactly when they have a length in common. -/
theorem any_length_ne_head_iff {rows : List (List (Expr S))} :
    (rows.any fun r => r.length ≠ (rows.headD []).length) = false ↔
      ∃ n, ∀ r ∈ rows, r.length = n := by
  simp only [List.any_eq_false, decide_eq_true_eq, Decidable.not_not]
  constructor
  · intro h
    exact ⟨_, h⟩
  · rintro ⟨n, h⟩
    cases rows with
    | nil => simp
    | cons first rest =>
        intro r hr
        rw [h r hr, List.headD_cons, h first List.mem_cons_self]

omit [Neg S] in
theorem areEven_iff {slots : List (NoiseSlot S)} :
    NoiseSlot.AreEven slots ↔
      (let equalities := slots.map NoiseSlot.equalities
       let inequalities := slots.map NoiseSlot.inequalities
       (equalities.any fun r => r.length ≠ (equalities.headD []).length) ||
         inequalities.any fun r => r.length ≠ (inequalities.headD []).length) = false := by
  simp only [Bool.or_eq_false_iff, any_length_ne_head_iff, List.forall_mem_map, NoiseSlot.AreEven]

omit [Neg S] in
/-- No row count is found wrong exactly if all are right. -/
theorem find?_count_eq_none_iff {dynamics : List (List (Expr S))} :
    (dynamics.zipIdx.find? fun (rows, _) =>
      !(Value.num problem.states).isCount rows.length) = none ↔
    ∀ rows ∈ dynamics, (Value.num problem.states).isCount rows.length = true := by
  simp only [List.find?_eq_none, Bool.not_eq_true', Bool.not_eq_false]
  constructor
  · intro h rows hrows
    obtain ⟨k, hk, rfl⟩ := List.getElem_of_mem hrows
    exact h (dynamics[k], k) (List.mk_mem_zipIdx_iff_getElem?.mpr (List.getElem?_eq_getElem hk))
  · rintro h ⟨rows, k⟩ hrows
    exact h rows (List.mem_of_getElem? (List.mk_mem_zipIdx_iff_getElem?.mp hrows))

theorem buildSlotted_eq_ok_iff {body : Body S} :
    buildSlotted problem stage infinity pieces = .ok body ↔
      ∃ law slots, problem.law stage = .ok law ∧
        List.Forall₂ (NoiseSlot.IsBuilt problem stage infinity pieces) law.support slots ∧
        NoiseSlot.AreEven slots ∧ body = .slotted slots := by
  unfold buildSlotted
  constructor
  · intro h
    simp only [bind_eq_ok, List.mapM_map] at h
    obtain ⟨law, hlaw, dynamics, hdynamics, equalities, hequalities, inequalities, hinequalities,
      costs, hcosts, h⟩ := h
    split at h
    · cases h
    · next hfind =>
        have built := forall₂_isBuilt infinity (mapM_eq_ok.mp hdynamics)
          (mapM_eq_ok.mp hequalities) (mapM_eq_ok.mp hinequalities) (mapM_eq_ok.mp hcosts)
          (find?_count_eq_none_iff.mp hfind)
        have hequalities' := Except.ok.inj
          (hequalities.symm.trans (mapM_of_isBuilt built fun _ _ h => h.equalities))
        have hinequalities' := Except.ok.inj
          (hinequalities.symm.trans (mapM_of_isBuilt built fun _ _ h => h.inequalities))
        split at h
        · cases h
        · next heven =>
            refine ⟨law, _, hlaw, built, areEven_iff.mpr ?_, (pure_eq_ok.mp h).symm⟩
            rw [← hequalities', ← hinequalities']
            exact Bool.not_eq_true _ ▸ heven
  · rintro ⟨law, slots, hlaw, built, even, rfl⟩
    have hdynamics := mapM_of_isBuilt built fun _ _ h => h.dynamics
    have hequalities := mapM_of_isBuilt built fun _ _ h => h.equalities
    have hinequalities := mapM_of_isBuilt built fun _ _ h => h.inequalities
    have hcosts := mapM_of_isBuilt built fun _ _ h => h.pieces
    have hcount : ∀ rows ∈ slots.map NoiseSlot.dynamics,
        (Value.num problem.states).isCount rows.length = true := by
      intro rows hrows
      obtain ⟨slot, hslot, rfl⟩ := List.mem_map.mp hrows
      obtain ⟨w, _, hw⟩ := exists_of_mem_forall₂ built hslot
      exact hw.count
    have hfind := find?_count_eq_none_iff.mpr hcount
    simp only [hlaw, List.mapM_map, Function.comp_def, hdynamics, hequalities, hinequalities,
      hcosts, ok_bind, hfind, areEven_iff.mp even]
    exact congrArg (Except.ok ∘ slotted) (zipSlots_of_isBuilt built)

end Body

end Bellman
