import Bellman.Proofs.Program.Retarget
import Bellman.Proofs.Program.Rows

/-!
# What a problem gives for a program

The body of a program is put together from expressions that the problem gives: rows, and the pieces
of the cost. In an affine problem they mention nothing but the state and the control, so the rows
that are made of them do not look at the future cost. Requests leave the expressions alone, and two
programs of one stage that are targeted to the same request differ in their cuts at most.
-/

namespace Bellman

open Data Function

variable {S : Type}

/-- Whether a term does not mention a column. -/
def Term.Ignores (c : Column) : Term S → Prop
  | .weight _ => True
  | .multiple m => m.column ≠ c

/-- Whether an expression does not mention a column. -/
def Expr.Ignores (c : Column) (e : Expr S) : Prop :=
  ∀ t ∈ e, t.Ignores c

namespace Expr

variable {c d : Column} {e e' : Expr S}

theorem ignores_append : Ignores c (e ++ e') ↔ e.Ignores c ∧ e'.Ignores c :=
  List.forall_mem_append

theorem ignores_cons {t : Term S} : Ignores c (t :: e) ↔ t.Ignores c ∧ e.Ignores c :=
  List.forall_mem_cons

theorem ignores_ofColumn [One S] (h : d ≠ c) : Ignores c [(.ofColumn d : Term S)] :=
  List.forall_mem_singleton.mpr h

/-- A scoped expression mentions nothing but the state and the control. -/
theorem IsScoped.ignores {shape : Shape} (h : e.IsScoped shape) (hc : ¬ c.IsInput shape) :
    e.Ignores c := by
  intro t ht
  cases t with
  | weight x => trivial
  | multiple m =>
      rintro rfl
      exact hc (h m ht)

variable [CommRing S]

theorem Ignores.neg (h : e.Ignores c) : e.neg.Ignores c := by
  refine List.forall_mem_map.mpr fun t ht => ?_
  cases t with
  | weight x => trivial
  | multiple m =>
      change m.neg.column ≠ c
      rw [m.column_neg]
      exact h _ ht

/-- The value of an expression does not depend on a column that it does not mention. -/
theorem Ignores.eval_update {w : Nat → S} {point : Column → S} (h : e.Ignores c) (x : S) :
    e.eval w (update point c x) = e.eval w point := by
  induction e with
  | nil => rfl
  | cons t e ih =>
      obtain ⟨ht, he⟩ := ignores_cons.mp h
      have hterm : t.eval w (update point c x) = t.eval w point := by
        cases t with
        | weight y => rfl
        | multiple m =>
            have hcolumn : m.column ≠ c := ht
            simp only [Term.eval, update_of_ne hcolumn]
      rw [eval_cons, eval_cons, hterm, ih he]

end Expr

section Exprs

/-- The expressions that a problem gives for the rows of a slot. -/
def NoiseSlot.exprs (s : NoiseSlot S) : List (Expr S) :=
  s.dynamics ++ s.equalities ++ s.inequalities ++ s.pieces

/-- The expressions that a problem gives for a cost. -/
def DirectCost.exprs : DirectCost S → List (Expr S)
  | single e => [e]
  | largest pieces => pieces

/-- The expressions that a problem gives for rows in which the noise is a variable. -/
def DirectRows.exprs (r : DirectRows S) : List (Expr S) :=
  r.dynamics ++ r.equalities ++ r.inequalities ++ r.cost.exprs

/-- The expressions that a problem gives for the body of a program. -/
def Body.exprs : Body S → List (Expr S)
  | direct r => r.exprs
  | slotted slots => slots.flatMap NoiseSlot.exprs

variable [CommRing S]

/-- The rows of a slot mention, apart from what the problem gives, only the next state and the cost.
-/
theorem NoiseSlot.ignores_rows {s : NoiseSlot S} (h : ∀ e ∈ s.exprs, e.Ignores .future) (k : Nat) :
    ∀ r ∈ s.rows k, r.body.Ignores .future := by
  simp only [exprs, List.forall_mem_append] at h
  obtain ⟨⟨⟨hdynamics, hequalities⟩, hinequalities⟩, hpieces⟩ := h
  simp only [rows, List.forall_mem_append, dynamicsRows, equalityRows, inequalityRows, costRows,
    forall_mem_map_zipIdx]
  refine ⟨⟨⟨?_, ?_⟩, ?_⟩, ?_⟩
  · rintro i ⟨e, sides⟩ hi
    have he : e ∈ s.dynamics := (List.of_mem_zip (List.mem_of_getElem? hi)).1
    exact Expr.ignores_cons.mpr ⟨Column.noConfusion, (hdynamics e he).neg⟩
  · rintro j ⟨e, sides⟩ hj
    exact hequalities e (List.of_mem_zip (List.mem_of_getElem? hj)).1
  · rintro j ⟨e, side⟩ hj
    exact hinequalities e (List.of_mem_zip (List.mem_of_getElem? hj)).1
  · rintro n ⟨e, side⟩ hn
    have he : e ∈ s.pieces := (List.of_mem_zip (List.mem_of_getElem? hn)).1
    exact Expr.ignores_cons.mpr ⟨Column.noConfusion, (hpieces e he).neg⟩

namespace DirectRows

variable {name : RowName} {c : Column} {e : Expr S}

theorem ignores_equalRow (hc : c ≠ .future) (h : e.Ignores .future) :
    (equalRow name c e).body.Ignores .future := by
  unfold equalRow
  split
  · exact Expr.ignores_ofColumn hc
  · exact Expr.ignores_cons.mpr ⟨hc, h.neg⟩

theorem ignores_aboveRow (hc : c ≠ .future) (h : e.Ignores .future) :
    (aboveRow name c e).body.Ignores .future := by
  unfold aboveRow
  split
  · exact Expr.ignores_ofColumn hc
  · exact Expr.ignores_append.mpr ⟨h, (Expr.ignores_ofColumn hc).neg⟩

theorem ignores_rows {r : DirectRows S} (h : ∀ e ∈ r.exprs, e.Ignores .future) :
    ∀ row ∈ r.rows, row.body.Ignores .future := by
  obtain ⟨dynamics, equalities, inequalities, cost⟩ := r
  simp only [exprs, List.forall_mem_append] at h
  obtain ⟨⟨⟨hdynamics, hequalities⟩, hinequalities⟩, hcost⟩ := h
  simp only [rows, List.forall_mem_append, forall_mem_map_zipIdx]
  refine ⟨⟨⟨?_, ?_⟩, ?_⟩, ?_⟩
  · intro i e hi
    exact ignores_equalRow Column.noConfusion (hdynamics e (List.mem_of_getElem? hi))
  · intro n e hn
    exact hequalities e (List.mem_of_getElem? hn)
  · intro n e hn
    exact hinequalities e (List.mem_of_getElem? hn)
  · cases cost with
    | single e => exact List.forall_mem_nil _
    | largest pieces =>
        simp only [forall_mem_map_zipIdx]
        intro n e hn
        exact ignores_aboveRow Column.noConfusion (hcost e (List.mem_of_getElem? hn))

end DirectRows

theorem Body.ignores_rows {body : Body S} (h : ∀ e ∈ body.exprs, e.Ignores .future) :
    ∀ r ∈ body.rows, r.body.Ignores .future := by
  cases body with
  | direct r => exact DirectRows.ignores_rows h
  | slotted slots =>
      refine NoiseSlot.forall_mem_allRows.mpr fun k s hs => ?_
      exact NoiseSlot.ignores_rows (List.forall_mem_flatMap.mp h s (List.mem_of_getElem? hs)) k

end Exprs

section Built

variable {problem : Problem S} {stage : Int} {model : CostModel} {pieces : List (StageCost S)}
variable {shape : Shape}

theorem DirectCost.exprs_ofPieces (model : CostModel) (costs : List (Expr S)) :
    (ofPieces model costs).exprs = costs := by
  unfold ofPieces
  split <;> rfl

/-- An affine problem gives scoped expressions for a noise that is a variable. -/
theorem DirectRows.IsBuilt.isScoped_exprs {noises : Nat} {r : DirectRows S}
    (h : r.IsBuilt problem stage noises model pieces) (haffine : problem.IsAffine)
    (hshape : problem.HasShape shape) (hpieces : problem.costPieces = .ok (model, pieces)) :
    ∀ e ∈ r.exprs, e.IsScoped shape := by
  obtain ⟨costs, hcosts, hcost⟩ := h.cost
  obtain ⟨hd, he, hi, hc⟩ := h.areScoped haffine hshape hpieces hcosts
  simp only [exprs, List.forall_mem_append, hcost, DirectCost.exprs_ofPieces]
  exact ⟨⟨⟨hd, he⟩, hi⟩, hc⟩

/-- An affine problem gives scoped expressions for every value of the noise. -/
theorem NoiseSlot.IsBuilt.isScoped_exprs [Neg S] {infinity : S} {w : List S} {slot : NoiseSlot S}
    (h : slot.IsBuilt problem stage infinity pieces w) (haffine : problem.IsAffine)
    (hshape : problem.HasShape shape) (hpieces : problem.costPieces = .ok (model, pieces)) :
    ∀ e ∈ slot.exprs, e.IsScoped shape := by
  simp only [exprs, List.forall_mem_append]
  refine ⟨⟨⟨haffine.dynamics shape hshape _ _ _ h.dynamics,
    haffine.equalities shape hshape _ _ _ h.equalities⟩,
    haffine.inequalities shape hshape _ _ _ h.inequalities⟩, ?_⟩
  intro e he
  obtain ⟨piece, hpiece, heq⟩ := exists_of_mem_forall₂ (mapM_eq_ok.mp h.pieces) he
  exact haffine.cost shape hshape model pieces hpieces piece hpiece _ _ e heq

end Built

theorem map_modify_of_forall {α β : Type} {f : α → α} {g : α → β} (h : ∀ a, g (f a) = g a)
    (l : List α) (k : Nat) : (l.modify k f).map g = l.map g := by
  induction l generalizing k with
  | nil => rw [List.modify_nil]
  | cons a l ih =>
      cases k with
      | zero => rw [List.modify_zero_cons, List.map_cons, List.map_cons, h]
      | succ k => rw [List.modify_succ_cons, List.map_cons, List.map_cons, ih]

namespace StageProgram

/-- A program with the rows of other cuts. -/
def withCuts (p : StageProgram S) (cuts : List (Cut S)) : StageProgram S :=
  { p with cuts }

variable {p q : StageProgram S}

/-- To switch on a slot changes right-hand sides, not what the problem gives. -/
theorem exprs_switchOn [Zero S] (p : StageProgram S) (k : Nat) :
    (p.switchOn k).body.exprs = p.body.exprs := by
  obtain ⟨_, _, _, _, _, _, _, _, body, _, _⟩ := p
  cases body with
  | direct rows => rfl
  | slotted slots =>
      simp only [switchOn, modifySides, Body.exprs, List.flatMap_def]
      refine congrArg List.flatten (map_modify_of_forall ?_ slots k)
      intro slot
      rfl

theorem exprs_of_aimed [Zero S] {r : Request S} (h : p.aimed r = .ok q) :
    q.body.exprs = p.body.exprs := by
  cases hindex : r.index with
  | none =>
      simp only [aimed, hindex, Except.ok.injEq] at h
      subst h
      rfl
  | some k =>
      simp only [aimed, hindex, activate_eq_ok_iff] at h
      obtain ⟨-, -, i, -, rfl⟩ := h
      exact exprs_switchOn _ i.toNat

theorem switchOn_withCuts [Zero S] (p : StageProgram S) (cuts : List (Cut S)) (k : Nat) :
    (p.withCuts cuts).switchOn k = (p.switchOn k).withCuts cuts := by
  obtain ⟨_, _, _, _, _, _, _, _, body, _, _⟩ := p
  cases body <;> rfl

/-- A request finds a program with other cuts as it finds the program itself. -/
theorem aimed_withCuts [Zero S] {r : Request S} (h : p.aimed r = .ok q) (cuts : List (Cut S)) :
    (p.withCuts cuts).aimed r = .ok (q.withCuts cuts) := by
  cases hindex : r.index with
  | none =>
      simp only [aimed, hindex, Except.ok.injEq] at h ⊢
      subst h
      rfl
  | some k =>
      simp only [aimed, hindex] at h ⊢
      obtain ⟨hk, hlive, i, hi, rfl⟩ := activate_eq_ok_iff.mp h
      exact activate_eq_ok_iff.mpr ⟨hk, hlive, i, hi, (switchOn_withCuts _ cuts _).symm⟩

variable [Scalar S] [Neg S] {problem : Problem S} {params : Parameters} {stage : Int}
variable {dim dim' : Value} {model model' : CostModel}

/-- Two programs that are built for a stage differ in their cuts alone. -/
theorem Parts.program_eq_withCuts [Zero S] (parts : Parts problem params stage dim model)
    (parts' : Parts problem params stage dim' model') (cuts cuts' : List (Cut S)) :
    parts'.program cuts' = (parts.program cuts).withCuts cuts' := by
  obtain ⟨_, _, _, _, _, _, _, hpieces, hinfinity, -, hstates, -, hnoises, hlower, hbody⟩ := parts
  obtain ⟨_, _, _, _, _, _, _, hpieces', hinfinity', -, hstates', -, hnoises', hlower', hbody'⟩ :=
    parts'
  obtain ⟨rfl, rfl⟩ := Prod.mk.inj (Except.ok.inj (hpieces.symm.trans hpieces'))
  obtain rfl := Except.ok.inj (hinfinity.symm.trans hinfinity')
  obtain rfl := Except.ok.inj (hstates.symm.trans hstates')
  obtain rfl := Except.ok.inj (hnoises.symm.trans hnoises')
  obtain rfl := Except.ok.inj (hlower.symm.trans hlower')
  obtain rfl := Except.ok.inj (hbody.symm.trans hbody')
  rfl

/-- What an affine problem gives for a program is over the state and the control. -/
theorem Parts.isScoped_exprs (parts : Parts problem params stage dim model)
    (haffine : problem.IsAffine) :
    ∀ e ∈ parts.body.exprs, e.IsScoped ⟨parts.states, parts.controls⟩ := by
  cases hmode : params.updateMode with
  | rebuild =>
      obtain ⟨rows, hbody, hrows⟩ := parts.exists_rows hmode
      rw [hbody]
      exact hrows.isScoped_exprs haffine parts.hasShape parts.costPieces_eq
  | slotReuse =>
      obtain ⟨law, slots, -, hbody, built⟩ := parts.exists_slots hmode
      rw [hbody]
      refine List.forall_mem_flatMap.mpr fun slot hslot => ?_
      obtain ⟨w, -, hw⟩ := exists_of_mem_forall₂ built hslot
      exact hw.isScoped_exprs haffine parts.hasShape parts.costPieces_eq

end StageProgram

end Bellman
