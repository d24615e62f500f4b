import Bellman.Proofs.Program.Body
import Bellman.Proofs.Reading
import Bellman.Session.StageModel

/-!
# Retargeting leaves nothing behind

A program at rest has no live slot, and all of its slots are pinned. From there it may be targeted
to one request after another: what the backend sees depends only on the program that was built, on
the cuts, and on the current request, because a target is overwritten by the next one and a slot
that was switched on is pinned again.
-/

namespace Bellman

open Data

variable {S : Type}

namespace StageProgram

/-- The program that the backend is asked to solve for a request. -/
def aimed [Zero S] (p : StageProgram S) (r : Request S) : Except Fault (StageProgram S) :=
  match r.index with
  | none => .ok ((p.setState r.state).setNoise r.noise)
  | some k => (p.setState r.state).activate k

/-- A program after the backend has answered a request. -/
def released [Neg S] (p : StageProgram S) (r : Request S) : StageProgram S :=
  match r.slot? with
  | none => p
  | some k => p.switchOff k

/-- A program after a request, be it that the backend has answered it, or that no slot could be
switched on for it. -/
def leftBy [Zero S] [Neg S] (p : StageProgram S) (r : Request S) : StageProgram S :=
  match p.aimed r with
  | .ok q => q.released r
  | .error _ => p.setState r.state

/-- Whether no slot is live and all are pinned. -/
structure IsAtRest [Neg S] (p : StageProgram S) : Prop where
  live : p.live = none
  pinned : ∀ slot ∈ p.slots, slot.sides.pinned p.infinity = slot.sides

/-- Whether a program is another one but for the state and the noise that it is targeted to. -/
structure Retargets (base p : StageProgram S) : Prop where
  same : p = { base with stateSides := p.stateSides, noise := p.noise }
  dim : p.stateSides.length = base.stateSides.length
  /-- Slots are not reached by the noise variables, which stay as they were built. -/
  noise : base.body.mode = .slotReuse → p.noise = base.noise

theorem slots_of_slotted {p : StageProgram S} {slots : List (NoiseSlot S)}
    (h : p.body = .slotted slots) : p.slots = slots := by
  rw [StageProgram.slots, h]

theorem slots_of_direct {p : StageProgram S} {rows : DirectRows S} (h : p.body = .direct rows) :
    p.slots = [] := by
  rw [StageProgram.slots, h]

theorem Retargets.refl (p : StageProgram S) : p.Retargets p :=
  ⟨rfl, rfl, fun _ => rfl⟩

theorem IsAtRest.setState [Neg S] {p : StageProgram S} (h : p.IsAtRest) (state : List S) :
    (p.setState state).IsAtRest :=
  ⟨h.live, h.pinned⟩

theorem modifySides_modifySides (p : StageProgram S) (k : Nat) (f g : SlotSides S → SlotSides S) :
    (p.modifySides k f).modifySides k g = p.modifySides k (g ∘ f) := by
  obtain ⟨_, _, _, _, _, _, _, _, body, _, _⟩ := p
  cases body with
  | direct rows => rfl
  | slotted slots =>
      simp only [modifySides, List.modify_modify_eq, Function.comp_def]

theorem modifySides_eq_self_of_getElem? {p : StageProgram S} {f : SlotSides S → SlotSides S}
    {k : Nat} (h : ∀ slot, p.slots[k]? = some slot → f slot.sides = slot.sides) :
    p.modifySides k f = p := by
  obtain ⟨_, _, _, _, _, _, _, _, body, _, _⟩ := p
  cases body with
  | direct rows => rfl
  | slotted slots =>
      have unchanged :
          slots.modify k (fun slot => { slot with sides := f slot.sides }) = slots := by
        apply List.ext_getElem?
        intro j
        rw [List.getElem?_modify]
        cases hj : slots[j]? with
        | none => split <;> rfl
        | some slot =>
            split
            · next hkj =>
                have hslot : f slot.sides = slot.sides := h slot (hkj ▸ hj)
                exact congrArg some (congrArg (fun sides => { slot with sides }) hslot)
            · rfl
      simp only [modifySides, unchanged]

theorem modifySides_eq_self {p : StageProgram S} {f : SlotSides S → SlotSides S}
    (h : ∀ slot ∈ p.slots, f slot.sides = slot.sides) (k : Nat) : p.modifySides k f = p :=
  modifySides_eq_self_of_getElem? fun slot hslot => h slot (List.mem_of_getElem? hslot)

/-- A slot that is switched on and off again is as it was. -/
theorem IsAtRest.switchOff_switchOn [Zero S] [Neg S] {p : StageProgram S} (h : p.IsAtRest)
    (k : Nat) : (p.switchOn k).switchOff k = p := by
  have pinned : ∀ slot ∈ p.slots, (SlotSides.pinned p.infinity ∘ SlotSides.live) slot.sides =
      slot.sides := by
    intro slot hslot
    rw [Function.comp_apply, SlotSides.live, SlotSides.pinned, SlotSides.replace_replace]
    exact h.pinned slot hslot
  calc
    (p.switchOn k).switchOff k =
        { (p.modifySides k SlotSides.live).modifySides k (SlotSides.pinned p.infinity) with
          live := none } := by
      obtain ⟨_, _, _, _, _, _, _, _, body, _, _⟩ := p
      cases body <;> simp only [switchOn, switchOff, modifySides, if_true]
    _ = { p with live := none } := by rw [modifySides_modifySides, modifySides_eq_self pinned]
    _ = p := by rw [← h.live]

theorem checkSlot_eq_ok_iff {p : StageProgram S} {k : Number} {u : Unit} :
    p.checkSlot k = .ok u ↔ k.isInRange p.slots.length = true := by
  unfold checkSlot slots
  cases p.body with
  | direct rows => simp [Number.isInRange_zero]
  | slotted slots => by_cases hk : k.isInRange slots.length <;> simp [hk]

theorem activate_eq_ok_iff [Zero S] {p q : StageProgram S} {k : Number} :
    p.activate k = .ok q ↔ k.isInRange p.slots.length = true ∧ p.live = none ∧
      ∃ i, k.toInt? = some i ∧ q = p.switchOn i.toNat := by
  simp only [activate, bind_eq_ok, checkSlot_eq_ok_iff]
  constructor
  · rintro ⟨_, hk, h⟩
    cases hlive : p.live with
    | none =>
        simp only [hlive, bind_eq_ok, Number.toIndex_eq_ok_iff, pure_eq_ok] at h
        obtain ⟨i, hi, hq⟩ := h
        exact ⟨hk, rfl, i, hi, hq.symm⟩
    | some live =>
        simp only [hlive] at h
        cases h
  · rintro ⟨hk, hlive, i, hi, rfl⟩
    refine ⟨(), hk, ?_⟩
    simp only [hlive, bind_eq_ok, Number.toIndex_eq_ok_iff, pure_eq_ok]
    exact ⟨i, hi, rfl⟩

theorem activate_whole_eq_ok_iff [Zero S] {p q : StageProgram S} {k : Int} :
    p.activate (.whole k) = .ok q ↔
      0 ≤ k ∧ k < p.slots.length ∧ p.live = none ∧ q = p.switchOn k.toNat := by
  rw [activate_eq_ok_iff, Number.isInRange_iff (n := .whole k) rfl, and_assoc]
  constructor
  · rintro ⟨hnonneg, hlt, hlive, _, ⟨⟩, hq⟩
    exact ⟨hnonneg, hlt, hlive, hq⟩
  · rintro ⟨hnonneg, hlt, hlive, hq⟩
    exact ⟨hnonneg, hlt, hlive, k, rfl, hq⟩

theorem activate_natCast_eq_ok_iff [Zero S] {p q : StageProgram S} {k : Nat} :
    p.activate (.whole k) = .ok q ↔ k < p.slots.length ∧ p.live = none ∧ q = p.switchOn k := by
  rw [activate_whole_eq_ok_iff, Int.ofNat_lt, Int.toNat_natCast]
  exact and_iff_right (Int.natCast_nonneg k)

/-- A number that is no index is found out when it is in the range of the slots and none is live. -/
theorem activate_of_toInt?_eq_none [Zero S] {p : StageProgram S} {k : Number}
    (hrange : k.isInRange p.slots.length = true) (hlive : p.live = none) (hk : k.toInt? = none) :
    p.activate k = .error (.notAnIndex k.typeName) := by
  have hcheck : p.checkSlot k = .ok () := checkSlot_eq_ok_iff.mpr hrange
  simp only [activate, hcheck, ok_bind, hlive, Number.toIndex, hk]
  rfl

theorem activate_of_mode_ne [Zero S] {p : StageProgram S} (h : p.body.mode ≠ .slotReuse)
    (k : Number) : p.activate k = .error .slotsUnavailable := by
  unfold activate checkSlot
  cases hbody : p.body with
  | direct rows => rfl
  | slotted slots =>
      rw [hbody] at h
      exact absurd rfl h

/-- A request changes the sides of the state rows, and otherwise nothing but the noise and the
right-hand sides of a slot. -/
theorem exists_aimed_eq [Zero S] [One S] {p q : StageProgram S} {r : Request S}
    (h : p.aimed r = .ok q) :
    ∃ noise body live, q = { p.setState r.state with noise, body, live } ∧
      body.cost = p.body.cost ∧ body.hasCost = p.body.hasCost := by
  unfold aimed at h
  cases hindex : r.index with
  | none =>
      simp only [hindex, Except.ok.injEq] at h
      exact ⟨_, _, _, h.symm, rfl, rfl⟩
  | some k =>
      simp only [hindex, activate_eq_ok_iff] at h
      obtain ⟨-, -, i, -, rfl⟩ := h
      simp only [switchOn, modifySides, setState]
      cases hbody : p.body with
      | direct rows => exact ⟨_, _, _, rfl, rfl, rfl⟩
      | slotted slots => exact ⟨_, _, _, rfl, rfl, rfl⟩

/-- Releasing a request changes nothing but the right-hand sides of a slot and which one is live. -/
theorem exists_released_eq [One S] [Neg S] (q : StageProgram S) (r : Request S) :
    ∃ body live, q.released r = { q with body, live } ∧ body.cost = q.body.cost := by
  obtain ⟨_, _, _, _, _, _, _, _, body, _, _⟩ := q
  unfold released
  cases r.slot? with
  | none => exact ⟨_, _, rfl, rfl⟩
  | some k =>
      cases body with
      | direct rows => exact ⟨_, _, rfl, rfl⟩
      | slotted slots => exact ⟨_, _, rfl, rfl⟩

namespace Retargets

variable {base p q : StageProgram S}

/-- A request finds no difference between a program and one that was retargeted before. -/
theorem aimed_eq [Zero S] (h : base.Retargets p) (r : Request S) : p.aimed r = base.aimed r := by
  have hbody : p.body = base.body := by rw [h.same]
  cases hindex : r.index with
  | none =>
      simp only [aimed, hindex, setState, setNoise]
      rw [h.same]
  | some k =>
      simp only [aimed, hindex]
      by_cases hmode : base.body.mode = .slotReuse
      · congr 1
        simp only [setState]
        rw [h.same, h.noise hmode]
      · have hmode' : p.body.mode ≠ .slotReuse := hbody ▸ hmode
        exact (activate_of_mode_ne (p := p.setState r.state) hmode' k).trans
          (activate_of_mode_ne (p := base.setState r.state) hmode k).symm

/-- New cuts do not tell a program apart from one that was retargeted before. -/
theorem appendCuts (h : base.Retargets p) (cuts : List (Cut S)) :
    ({ base with cuts := base.cuts ++ cuts } : StageProgram S).Retargets
      { p with cuts := p.cuts ++ cuts } := by
  obtain ⟨sides, noise, rfl⟩ : ∃ sides noise, p = { base with stateSides := sides, noise } :=
    ⟨_, _, h.same⟩
  exact ⟨rfl, h.dim, h.noise⟩

/-- A program whose state was set has only been retargeted. -/
theorem setState (h : base.Retargets p) {state : List S} (hdim : state.length = base.dimStates) :
    base.Retargets (p.setState state) := by
  refine ⟨?_, ?_, h.noise⟩
  · rw [StageProgram.setState]
    exact congrArg (fun p => { p with stateSides := state.map fun s => (s, s) }) h.same
  · rw [StageProgram.setState, List.length_map, hdim, dimStates]

/-- Once a request is over, a program that was at rest has only been retargeted. -/
theorem released [Zero S] [Neg S] {r : Request S} (hrest : base.IsAtRest)
    (hmode : r.index = none → base.body.mode ≠ .slotReuse)
    (hdim : r.state.length = base.dimStates) (h : base.aimed r = .ok q) :
    base.Retargets (q.released r) := by
  have hlength : (r.state.map fun s => (s, s)).length = base.stateSides.length := by
    rw [List.length_map, hdim, dimStates]
  cases hindex : r.index with
  | none =>
      simp only [aimed, hindex, Except.ok.injEq] at h
      subst h
      have hslot : r.slot? = none := by rw [Request.slot?, hindex]; rfl
      simp only [StageProgram.released, hslot]
      exact ⟨rfl, hlength, fun h => absurd h (hmode hindex)⟩
  | some k =>
      simp only [aimed, hindex] at h
      obtain ⟨-, -, i, hi, rfl⟩ := activate_eq_ok_iff.mp h
      have hslot : r.slot? = some i.toNat := by
        rw [Request.slot?, hindex, Option.bind_some, hi, Option.map_some]
      simp only [StageProgram.released, hslot,
        (hrest.setState r.state).switchOff_switchOn i.toNat]
      exact ⟨rfl, hlength, fun _ => rfl⟩

/-- Whatever comes of a request, a program that was at rest has only been retargeted. -/
theorem leftBy [Zero S] [Neg S] {r : Request S} (h : base.Retargets p) (hrest : base.IsAtRest)
    (hmode : r.index = none → base.body.mode ≠ .slotReuse)
    (hdim : r.state.length = base.dimStates) : base.Retargets (p.leftBy r) := by
  unfold StageProgram.leftBy
  split
  · next q hq => exact released hrest hmode hdim ((h.aimed_eq r).symm.trans hq)
  · exact h.setState hdim

end Retargets

namespace Parts

variable [Scalar S] [Neg S] {problem : Problem S} {params : Parameters} {stage : Int}
variable {dim : Value} {model : CostModel}

theorem mode_body (parts : Parts problem params stage dim model) :
    parts.body.mode = params.updateMode := by
  have hbody := parts.body_eq
  unfold Body.buildFor at hbody
  cases hmode : params.updateMode with
  | rebuild =>
      simp only [hmode, Body.buildDirect_eq_ok_iff] at hbody
      obtain ⟨rows, -, hrows⟩ := hbody
      rw [hrows, Body.mode]
  | slotReuse =>
      simp only [hmode, Body.buildSlotted_eq_ok_iff] at hbody
      obtain ⟨law, slots, -, -, -, hslots⟩ := hbody
      rw [hslots, Body.mode]

/-- A body in which the noise is a variable has the rows that the problem gives for it. -/
theorem exists_rows (parts : Parts problem params stage dim model)
    (hmode : params.updateMode = .rebuild) :
    ∃ r : DirectRows S, parts.body = .direct r ∧
      r.IsBuilt problem stage parts.noises model parts.pieces := by
  have hbody := parts.body_eq
  simp only [Body.buildFor, hmode, Body.buildDirect_eq_ok_iff] at hbody
  obtain ⟨r, built, hr⟩ := hbody
  exact ⟨r, hr, built⟩

/-- A slotted body has one slot, held open, for every value of the noise. -/
theorem exists_slots (parts : Parts problem params stage dim model)
    (hmode : params.updateMode = .slotReuse) :
    ∃ law slots, problem.law stage = .ok law ∧ parts.body = .slotted slots ∧
      List.Forall₂ (NoiseSlot.IsBuilt problem stage parts.infinity parts.pieces)
        law.support slots := by
  have hbody := parts.body_eq
  simp only [Body.buildFor, hmode, Body.buildSlotted_eq_ok_iff] at hbody
  obtain ⟨law, slots, hlaw, built, -, hslots⟩ := hbody
  exact ⟨law, slots, hlaw, hslots, built⟩

/-- The cost that enters the objective is over the state and the control, or is a column of its own.
-/
theorem column_of_cost [Zero S] [One S] [Add S]
    (parts : Parts problem params stage dim model) (haffine : problem.IsAffine) {x : Multiple S}
    (hx : .multiple x ∈ parts.body.cost) :
    x.column.IsInput ⟨parts.states, parts.controls⟩ ∨
      x.column = .cost ∧ parts.body.hasCost = true := by
  have hcolumn : ∀ {x : Multiple S}, .multiple x ∈ ([.ofColumn .cost] : Expr S) →
      x.column = .cost := by
    intro x hx
    obtain rfl := Term.multiple.inj (List.mem_singleton.mp hx)
    rfl
  cases hmode : params.updateMode with
  | slotReuse =>
      obtain ⟨law, slots, -, hbody, -⟩ := parts.exists_slots hmode
      rw [hbody] at hx ⊢
      exact .inr ⟨hcolumn hx, rfl⟩
  | rebuild =>
      obtain ⟨rows, hbody, hrows⟩ := parts.exists_rows hmode
      obtain ⟨costs, hcosts, hcost⟩ := hrows.cost
      obtain ⟨-, -, -, hscoped⟩ := hrows.areScoped haffine parts.hasShape parts.costPieces_eq hcosts
      rw [hbody] at hx ⊢
      cases hrows' : rows.cost with
      | single e =>
          rw [Body.cost_of_single hrows'] at hx
          exact .inl (hscoped e (DirectCost.mem_of_ofPieces (hcost.symm.trans hrows')) x hx)
      | largest pieces =>
          rw [Body.cost_of_largest hrows'] at hx
          exact .inr ⟨hcolumn hx, Body.hasCost_of_largest hrows'⟩

/-- A program is at rest when it has been built. -/
theorem isAtRest_program [Zero S] (parts : Parts problem params stage dim model)
    (cuts : List (Cut S)) : (parts.program cuts).IsAtRest := by
  refine ⟨rfl, ?_⟩
  intro slot hslot
  cases hmode : params.updateMode with
  | rebuild =>
      obtain ⟨rows, hrows, -⟩ := parts.exists_rows hmode
      have hnone : (parts.program cuts).slots = [] := slots_of_direct hrows
      rw [hnone] at hslot
      cases hslot
  | slotReuse =>
      obtain ⟨law, slots, -, hslots, built⟩ := parts.exists_slots hmode
      have hall : (parts.program cuts).slots = slots := slots_of_slotted hslots
      rw [hall] at hslot
      obtain ⟨w, -, hw⟩ := exists_of_mem_forall₂ built hslot
      change slot.sides.pinned parts.infinity = slot.sides
      rw [hw.sides]
      simp only [SlotSides.pinned, SlotSides.replace, Body.openSides, List.map_replicate]

end Parts

end StageProgram

end Bellman
