import Bellman.Proofs.Exact
import Bellman.Proofs.Program.Retarget
import Bellman.Proofs.Program.Rows
import Mathlib.Algebra.Order.Group.Defs
import Mathlib.Tactic.NormNum

/-!
# At most one slot is live

The targets of a program may be changed in any order: the state rows are set, the noise variables
are fixed, slots are switched on and pinned again, with whatever values and indices, and some of
these calls are refused. Whatever is called, one slot at most is live. Its right-hand sides are
zero, and those of all other slots are at the sentinels.

The invariant is that nothing but the targets tells the program apart from the one that was built,
except that one slot may be switched on.
-/

namespace Bellman

open Data

variable {S : Type}

/-- A call that changes the targets of a program. -/
inductive Retargeting where
  | targetState (state : Value)
  | fixNoise (noise : Value)
  | activate (k : Int)
  /-- Pin a slot, which is the live one unless there is an index. -/
  | deactivate (k : Option Int)

/-- Whether a scalar can hold rows open: its negative is not above zero, and both compare with
themselves. -/
structure IsSentinel [Zero S] [Neg S] [LE S] (infinity : S) : Prop where
  le_self : infinity ≤ infinity
  neg_le_self : -infinity ≤ -infinity
  not_zero_le_neg : ¬ 0 ≤ -infinity

theorem IsSentinel.of_pos [AddCommGroup S] [PartialOrder S] [IsOrderedAddMonoid S] {infinity : S}
    (h : 0 < infinity) : IsSentinel infinity :=
  ⟨le_refl _, le_refl _, not_le_of_gt (neg_lt_zero.mpr h)⟩

example : IsSentinel (1e20 : Float) :=
  ⟨by decide, by decide, by decide⟩

namespace SlotSides

variable [Zero S] [Neg S] [LE S] [DecidableLE S] {infinity : S} {slot : NoiseSlot S}

omit [Zero S] in
theorem isPinned_of_open (hle : infinity ≤ infinity) (hneg : -infinity ≤ -infinity)
    (h : slot.sides = slot.sidesAt (-infinity) infinity) : slot.sides.isPinned infinity = true := by
  simp [h, isPinned, lowers, uppers, NoiseSlot.sidesAt, hle, hneg]

/-- A live slot is not pinned, because the cost has at least one piece. -/
theorem isPinned_of_live (hzero : ¬ 0 ≤ -infinity) (hpieces : slot.pieces ≠ [])
    (h : slot.sides = slot.sidesAt 0 0) : slot.sides.isPinned infinity = false := by
  have hlower : (0 : S) ∈ slot.sides.lowers := by
    simp [h, lowers, NoiseSlot.sidesAt, List.mem_replicate, hpieces]
  have hall : (slot.sides.lowers.all fun r => r ≤ -infinity) = false := by
    rw [List.all_eq_false]
    exact ⟨0, hlower, by simpa using hzero⟩
  rw [isPinned, hall, Bool.false_and]

end SlotSides

namespace StageProgram

section Calls

variable [Scalar S] [Zero S] [Neg S]

/-- The program that a call asks for, unless it is refused. -/
def retarget (p : StageProgram S) : Retargeting → Except Fault (StageProgram S)
  | .targetState state => p.targetState state
  | .fixNoise noise => p.fixNoise noise
  | .activate k => p.activate (.whole k)
  | .deactivate (some k) => p.deactivate (.whole k)
  | .deactivate none => .ok p.deactivateLive

/-- A program after a call, and the fault of the call if it is refused. -/
def call (p : StageProgram S) (c : Retargeting) : StageProgram S × Option Fault :=
  match p.retarget c with
  | .ok q => (q, none)
  | .error e => (p, some e)

/-- A program after one call after another. -/
def afterCalls (p : StageProgram S) (calls : List Retargeting) : StageProgram S :=
  calls.foldl (fun p c => (p.call c).1) p

omit [Zero S] [Neg S] in
/-- Whether a call does not suit a program: a vector cannot be read or has the wrong length, an
index is out of range, or a slot is live when another one is to be. -/
def Refuses (p : StageProgram S) : Retargeting → Prop
  | .targetState state =>
    ∀ xs : List S, Scalar.readVector "state" (.int p.dimStates) state ≠ .ok xs
  | .fixNoise noise =>
    ∀ xs : List S, Scalar.readVector "noise" (.int p.noise.length) noise ≠ .ok xs
  | .activate k => k < 0 ∨ p.slots.length ≤ k ∨ p.live ≠ none
  | .deactivate (some k) => k < 0 ∨ p.slots.length ≤ k
  | .deactivate none => False

end Calls

/-- A program with other targets. -/
def targeting (p : StageProgram S) (sides : List (S × S)) (noise : List S) : StageProgram S :=
  { p with stateSides := sides, noise }

/-- What calls can make of a program that is at rest: it has other targets, and one of its slots may
be on. -/
inductive Toggles [Zero S] (base : StageProgram S) : StageProgram S → Prop where
  | pinned (sides : List (S × S)) (noise : List S) : base.Toggles (base.targeting sides noise)
  | live (sides : List (S × S)) (noise : List S) (k : Nat) (hk : k < base.slots.length) :
      base.Toggles ((base.targeting sides noise).switchOn k)

section Switching

variable {p q : StageProgram S}

@[simp] theorem slots_switchOn [Zero S] (p : StageProgram S) (k : Nat) :
    (p.switchOn k).slots =
      p.slots.modify k fun slot => { slot with sides := slot.sides.live } := by
  obtain ⟨_, _, _, _, _, _, _, _, body, _, _⟩ := p
  cases body with
  | direct rows => simp [slots, switchOn, modifySides]
  | slotted slots => rfl

theorem setState_switchOn [Zero S] (p : StageProgram S) (k : Nat) (state : List S) :
    (p.switchOn k).setState state = (p.setState state).switchOn k := by
  obtain ⟨_, _, _, _, _, _, _, _, body, _, _⟩ := p
  cases body <;> rfl

theorem setNoise_switchOn [Zero S] (p : StageProgram S) (k : Nat) (noise : List S) :
    (p.switchOn k).setNoise noise = (p.setNoise noise).switchOn k := by
  obtain ⟨_, _, _, _, _, _, _, _, body, _, _⟩ := p
  cases body <;> rfl

@[simp] theorem live_switchOn [Zero S] (p : StageProgram S) (k : Nat) :
    (p.switchOn k).live = some k := rfl

@[simp] theorem infinity_switchOn [Zero S] (p : StageProgram S) (k : Nat) :
    (p.switchOn k).infinity = p.infinity := by
  obtain ⟨_, _, _, _, _, _, _, _, body, _, _⟩ := p
  cases body <;> rfl

theorem IsAtRest.targeting [Neg S] (h : p.IsAtRest) (sides : List (S × S)) (noise : List S) :
    (p.targeting sides noise).IsAtRest :=
  ⟨h.live, h.pinned⟩

theorem IsAtRest.switchOff [Neg S] (h : p.IsAtRest) (k : Nat) : p.switchOff k = p := by
  have hsides : p.modifySides k (SlotSides.pinned p.infinity) = p := modifySides_eq_self h.pinned k
  have hlive : (if p.live = some k then none else p.live) = p.live := by
    rw [h.live]
    rfl
  rw [StageProgram.switchOff, hsides, hlive]

/-- To pin another slot than the live one changes nothing. -/
theorem IsAtRest.switchOff_switchOn_of_ne [Zero S] [Neg S] (h : p.IsAtRest) {j k : Nat}
    (hne : j ≠ k) : (p.switchOn k).switchOff j = p.switchOn k := by
  have hsides : (p.switchOn k).modifySides j (SlotSides.pinned (p.switchOn k).infinity) =
      p.switchOn k := by
    refine modifySides_eq_self_of_getElem? fun slot hslot => ?_
    rw [slots_switchOn, List.getElem?_modify] at hslot
    simp only [Ne.symm hne, if_false, Option.map_eq_map, Option.map_id'] at hslot
    rw [infinity_switchOn]
    exact h.pinned slot (List.mem_of_getElem? hslot)
  have hlive : (if (p.switchOn k).live = some j then none else (p.switchOn k).live) =
      (p.switchOn k).live := by
    rw [live_switchOn, if_neg fun hk => hne (Option.some.inj hk).symm]
  rw [StageProgram.switchOff, hsides, hlive]

theorem deactivate_whole_eq_ok_iff [Neg S] {k : Int} :
    p.deactivate (.whole k) = .ok q ↔
      0 ≤ k ∧ k < p.slots.length ∧ q = p.switchOff k.toNat := by
  simp only [deactivate, bind_eq_ok, checkSlot_eq_ok_iff, Number.toIndex_eq_ok_iff, pure_eq_ok,
    Number.isInRange_iff (n := .whole k) rfl]
  constructor
  · rintro ⟨_, ⟨hnonneg, hlt⟩, _, ⟨⟩, hq⟩
    exact ⟨hnonneg, hlt, hq.symm⟩
  · rintro ⟨hnonneg, hlt, rfl⟩
    exact ⟨(), ⟨hnonneg, hlt⟩, k, rfl, rfl⟩

end Switching

section Invariant

variable [Scalar S] [Zero S] [Neg S] {base p q : StageProgram S} {c : Retargeting}

/-- A call that is not refused leaves a program with other targets and at most one slot on. -/
theorem Toggles.retarget (h : base.Toggles p) (hrest : base.IsAtRest)
    (hc : p.retarget c = .ok q) : base.Toggles q := by
  cases c with
  | targetState state =>
      obtain ⟨xs, -, rfl⟩ := map_eq_ok.mp hc
      cases h with
      | pinned sides noise => exact .pinned _ noise
      | live sides noise k hk =>
          rw [setState_switchOn]
          exact .live _ noise k hk
  | fixNoise noise =>
      obtain ⟨ws, -, rfl⟩ := map_eq_ok.mp hc
      cases h with
      | pinned sides noise => exact .pinned sides _
      | live sides noise k hk =>
          rw [setNoise_switchOn]
          exact .live sides _ k hk
  | activate k =>
      obtain ⟨hnonneg, hlt, hlive, rfl⟩ := activate_whole_eq_ok_iff.mp hc
      cases h with
      | pinned sides noise =>
          have hk : k.toNat < base.slots.length := (Int.toNat_lt hnonneg).mpr hlt
          exact .live sides noise k.toNat hk
      | live sides noise j hj =>
          rw [live_switchOn] at hlive
          cases hlive
  | deactivate k =>
      cases h with
      | pinned sides noise =>
          have hq : q = base.targeting sides noise := by
            cases k with
            | some k =>
                obtain ⟨-, -, rfl⟩ := deactivate_whole_eq_ok_iff.mp hc
                exact (hrest.targeting sides noise).switchOff k.toNat
            | none =>
                have hnone : (base.targeting sides noise).live = none := hrest.live
                simp only [StageProgram.retarget, deactivateLive, hnone, Except.ok.injEq] at hc
                exact hc.symm
          exact hq ▸ .pinned sides noise
      | live sides noise j hj =>
          have hoff : ((base.targeting sides noise).switchOn j).switchOff j =
              base.targeting sides noise :=
            (hrest.targeting sides noise).switchOff_switchOn j
          cases k with
          | some k =>
              obtain ⟨-, -, rfl⟩ := deactivate_whole_eq_ok_iff.mp hc
              by_cases hkj : k.toNat = j
              · rw [hkj, hoff]
                exact .pinned sides noise
              · rw [(hrest.targeting sides noise).switchOff_switchOn_of_ne hkj]
                exact .live sides noise j hj
          | none =>
              simp only [StageProgram.retarget, deactivateLive, live_switchOn, hoff,
                Except.ok.injEq] at hc
              exact hc ▸ .pinned sides noise

theorem Toggles.call (h : base.Toggles p) (hrest : base.IsAtRest) (c : Retargeting) :
    base.Toggles (p.call c).1 := by
  unfold StageProgram.call
  split
  · next q hq => exact h.retarget hrest hq
  · exact h

theorem Toggles.afterCalls (h : base.Toggles p) (hrest : base.IsAtRest)
    (calls : List Retargeting) : base.Toggles (p.afterCalls calls) := by
  induction calls generalizing p with
  | nil => exact h
  | cons c calls ih => exact ih (h.call hrest c)

/-- A call is refused exactly if it does not suit the program. -/
theorem refuses_iff (p : StageProgram S) (c : Retargeting) :
    p.Refuses c ↔ ∃ e, (p.call c).2 = some e := by
  have hcall : (∃ e, (p.call c).2 = some e) ↔ ∀ q, p.retarget c ≠ .ok q := by
    unfold StageProgram.call
    cases p.retarget c <;> simp
  rw [hcall]
  cases c with
  | targetState state =>
      simp only [Refuses, StageProgram.retarget, targetState, ne_eq, map_eq_ok]
      constructor
      · rintro h q ⟨xs, hxs, -⟩
        exact h xs hxs
      · intro h xs hxs
        exact h _ ⟨xs, hxs, rfl⟩
  | fixNoise noise =>
      simp only [Refuses, StageProgram.retarget, fixNoise, ne_eq, map_eq_ok]
      constructor
      · rintro h q ⟨ws, hws, -⟩
        exact h ws hws
      · intro h ws hws
        exact h _ ⟨ws, hws, rfl⟩
  | activate k =>
      simp only [Refuses, StageProgram.retarget, ne_eq, activate_whole_eq_ok_iff]
      constructor
      · rintro h q ⟨hnonneg, hlt, hlive, -⟩
        rcases h with h | h | h
        · omega
        · omega
        · exact h hlive
      · intro h
        by_contra hne
        simp only [not_or, not_lt, not_le, not_not] at hne
        exact h _ ⟨hne.1, hne.2.1, hne.2.2, rfl⟩
  | deactivate k =>
      cases k with
      | some k =>
          simp only [Refuses, StageProgram.retarget, ne_eq, deactivate_whole_eq_ok_iff]
          constructor
          · rintro h q ⟨hnonneg, hlt, -⟩
            omega
          · intro h
            by_contra hne
            simp only [not_or, not_lt, not_le] at hne
            exact h _ ⟨hne.1, hne.2, rfl⟩
      | none => simp [Refuses, StageProgram.retarget]

theorem call_of_refuses (h : p.Refuses c) : (p.call c).1 = p := by
  obtain ⟨e, he⟩ := (refuses_iff p c).mp h
  unfold call at he ⊢
  split at he
  · cases he
  · rfl

end Invariant

/-- Whether at most one slot of a program is live, with its right-hand sides at zero, and all others
are at the sentinels. -/
structure HoldsOneSlot [Zero S] [Neg S] (q : StageProgram S) : Prop where
  exists_live : ∀ k, q.live = some k → k < q.slots.length
  live : ∀ k slot, q.slots[k]? = some slot → q.live = some k → slot.sides = slot.sidesAt 0 0
  pinned : ∀ k slot, q.slots[k]? = some slot → q.live ≠ some k →
    slot.sides = slot.sidesAt (-q.infinity) q.infinity

section Toggled

variable [Zero S] [Neg S] {base q : StageProgram S}

omit [Neg S] in
theorem Toggles.infinity_eq (h : base.Toggles q) : q.infinity = base.infinity := by
  cases h with
  | pinned sides noise => rfl
  | live sides noise k hk => exact infinity_switchOn _ k

omit [Neg S] in
theorem Toggles.length_slots (h : base.Toggles q) : q.slots.length = base.slots.length := by
  cases h with
  | pinned sides noise => rfl
  | live sides noise k hk =>
      rw [slots_switchOn, List.length_modify]
      rfl

omit [Neg S] in
theorem Toggles.lt_of_live (h : base.Toggles q) (hrest : base.live = none) {k : Nat}
    (hk : q.live = some k) : k < base.slots.length := by
  cases h with
  | pinned sides noise => cases hrest.symm.trans hk
  | live sides noise j hj => exact Option.some.inj hk ▸ hj

omit [Neg S] in
/-- Each slot is one of the program at rest, and only the live one has other right-hand sides. -/
theorem Toggles.exists_slot (h : base.Toggles q) (hrest : base.live = none) {k : Nat}
    {slot : NoiseSlot S} (hslot : q.slots[k]? = some slot) :
    ∃ slot₀ ∈ base.slots,
      slot = { slot₀ with sides := if q.live = some k then slot₀.sides.live else slot₀.sides } := by
  cases h with
  | pinned sides noise =>
      have hlive : (base.targeting sides noise).live ≠ some k := by
        intro hk
        cases hrest.symm.trans hk
      refine ⟨slot, List.mem_of_getElem? hslot, ?_⟩
      rw [if_neg hlive]
  | live sides noise j hj =>
      rw [slots_switchOn, List.getElem?_modify, Option.map_eq_map, Option.map_eq_some_iff] at hslot
      obtain ⟨slot₀, hslot₀, rfl⟩ := hslot
      refine ⟨slot₀, List.mem_of_getElem? hslot₀, ?_⟩
      simp only [live_switchOn, Option.some.injEq]
      split <;> rfl

/-- If all slots were built open, one at most is live. -/
theorem Toggles.holdsOneSlot (h : base.Toggles q) (hrest : base.live = none)
    (hopen : ∀ slot ∈ base.slots, slot.sides = slot.sidesAt (-base.infinity) base.infinity) :
    q.HoldsOneSlot := by
  constructor
  · intro k hk
    rw [h.length_slots]
    exact h.lt_of_live hrest hk
  · intro k slot hslot hlive
    obtain ⟨slot₀, hslot₀, rfl⟩ := h.exists_slot hrest hslot
    simp only [hlive, if_true]
    rw [hopen slot₀ hslot₀]
    simp only [SlotSides.live, SlotSides.replace, NoiseSlot.sidesAt, List.map_replicate]
  · intro k slot hslot hlive
    obtain ⟨slot₀, hslot₀, rfl⟩ := h.exists_slot hrest hslot
    simp only [hlive, if_false]
    rw [h.infinity_eq]
    exact hopen slot₀ hslot₀

variable [LE S] [DecidableLE S]

/-- A slot is pinned exactly if it is not the live one. -/
theorem HoldsOneSlot.isPinned_eq (h : q.HoldsOneSlot) (hinfinity : IsSentinel q.infinity)
    (hpieces : ∀ slot ∈ q.slots, slot.pieces ≠ []) {j : Nat} (hj : j < q.slots.length) :
    q.isPinned j = .ok (decide (q.live ≠ some j)) := by
  have hslot : q.slots[j]? = some q.slots[j] := List.getElem?_eq_getElem hj
  have hfound : elementAt? q.slots (j : Int) = some q.slots[j] := by
    simp only [elementAt?, place?_natCast, hj, if_true]
    exact hslot
  simp only [isPinned, hfound]
  congr 1
  by_cases hlive : q.live = some j
  · rw [decide_eq_false (not_not_intro hlive)]
    exact SlotSides.isPinned_of_live hinfinity.not_zero_le_neg
      (hpieces _ (List.mem_of_getElem? hslot)) (h.live j _ hslot hlive)
  · rw [decide_eq_true hlive]
    exact SlotSides.isPinned_of_open hinfinity.le_self hinfinity.neg_le_self
      (h.pinned j _ hslot hlive)

end Toggled

section Built

variable [Scalar S] [Zero S] [Neg S] {problem : Problem S} {params : Parameters} {stage : Int}
variable {dim : Value} {model : CostModel}

/-- Every slot was built open, with a row for at least one piece of the cost. -/
theorem Parts.slot_of_mem (parts : Parts problem params stage dim model) {cuts : List (Cut S)}
    {slot : NoiseSlot S} (hslot : slot ∈ (parts.program cuts).slots) :
    slot.sides = slot.sidesAt (-parts.infinity) parts.infinity ∧ slot.pieces ≠ [] := by
  cases hmode : params.updateMode with
  | rebuild =>
      obtain ⟨rows, hrows, -⟩ := parts.exists_rows hmode
      have hnone : (parts.program cuts).slots = [] := slots_of_direct hrows
      rw [hnone] at hslot
      cases hslot
  | slotReuse =>
      obtain ⟨law, slots, -, hslots, built⟩ := parts.exists_slots hmode
      have hall : (parts.program cuts).slots = slots := slots_of_slotted hslots
      rw [hall] at hslot
      obtain ⟨w, -, hw⟩ := exists_of_mem_forall₂ built hslot
      refine ⟨hw.sides, ?_⟩
      have hlength := length_of_mapM hw.pieces
      have hsome : parts.pieces ≠ [] := Problem.pieces_ne_nil parts.costPieces_eq
      intro hnil
      rw [hnil] at hlength
      exact hsome (List.eq_nil_of_length_eq_zero hlength.symm)

variable [LE S] [DecidableLE S]

/-- Whatever is called on a program that was built, and whether it is refused or not, one slot at
most is live, with its right-hand sides at zero, and all others are at the sentinels. So a slot is
pinned exactly if it is not the live one. A call is refused exactly if it does not suit the program,
and then it changes nothing. -/
theorem holdsOneSlot_afterCalls {v : ValueFunction S} {p : StageProgram S}
    (hbuild : build problem params stage v = .ok (model, p)) (hinfinity : IsSentinel p.infinity)
    (calls : List Retargeting) :
    (p.afterCalls calls).HoldsOneSlot ∧
      (p.afterCalls calls).infinity = p.infinity ∧
      (p.afterCalls calls).slots.length = p.slots.length ∧
      (∀ j < p.slots.length, (p.afterCalls calls).isPinned j =
        .ok (decide ((p.afterCalls calls).live ≠ some j))) ∧
      ∀ c, ((p.afterCalls calls).Refuses c ↔ ∃ e, ((p.afterCalls calls).call c).2 = some e) ∧
        ((p.afterCalls calls).Refuses c →
          ((p.afterCalls calls).call c).1 = p.afterCalls calls) := by
  obtain ⟨parts, -, rfl⟩ := build_eq_ok_iff.mp hbuild
  have hrest := parts.isAtRest_program v.cuts
  have htoggles : (parts.program v.cuts).Toggles ((parts.program v.cuts).afterCalls calls) :=
    Toggles.afterCalls (.pinned _ _) hrest calls
  have hone := htoggles.holdsOneSlot hrest.live fun slot hslot => (parts.slot_of_mem hslot).1
  have hpieces : ∀ slot ∈ ((parts.program v.cuts).afterCalls calls).slots, slot.pieces ≠ [] := by
    intro slot hslot
    obtain ⟨k, hk⟩ := List.mem_iff_getElem?.mp hslot
    obtain ⟨slot₀, hslot₀, rfl⟩ := htoggles.exists_slot hrest.live hk
    exact (parts.slot_of_mem hslot₀).2
  have hsame := htoggles.infinity_eq
  have hlength := htoggles.length_slots
  refine ⟨hone, hsame, hlength, ?_, ?_⟩
  · intro j hj
    apply hone.isPinned_eq _ hpieces (hj.trans_eq hlength.symm)
    rw [hsame]
    exact hinfinity
  · intro c
    exact ⟨refuses_iff _ c, call_of_refuses⟩

end Built

end StageProgram

/-- The second slot of the stock is switched on, and stays the only one although the first one is
asked for, pinned again, and a slot is named that does not exist. -/
theorem Stock.holdsOneSlot_slotReuse :
    let calls := [.activate 1, .activate 0, .deactivate (some 0), .targetState (.list [.int 4]),
      .deactivate (some (-1))]
    ∃ p, StageProgram.build (problem .linear) (params .slotReuse) 0 future = .ok (.linear, p) ∧
      (p.afterCalls calls).live = some 1 ∧ (p.afterCalls calls).HoldsOneSlot ∧
      (p.afterCalls calls).isPinned (0 : Nat) = .ok true ∧
      (p.afterCalls calls).isPinned (1 : Nat) = .ok false ∧
      ((p.afterCalls calls).call (.activate 0)).1 = p.afterCalls calls := by
  intro calls
  obtain ⟨p, hbuild, hinfinity, hlength, hlive⟩ : ∃ p, StageProgram.build (problem .linear)
      (params .slotReuse) 0 future = .ok (.linear, p) ∧ p.infinity = 10 ^ 20 ∧
      p.slots.length = 2 ∧ (p.afterCalls calls).live = some 1 :=
    ⟨_, rfl, rfl, rfl, rfl⟩
  have hsentinel : IsSentinel p.infinity := IsSentinel.of_pos (by rw [hinfinity]; norm_num)
  obtain ⟨hone, -, -, hpinned, hrefuses⟩ :=
    StageProgram.holdsOneSlot_afterCalls hbuild hsentinel calls
  have hzero := hpinned 0 (by omega)
  have hfirst := hpinned 1 (by omega)
  rw [hlive] at hzero hfirst
  refine ⟨p, hbuild, hlive, hone, hzero, hfirst, (hrefuses _).2 ?_⟩
  exact .inr (.inr (by rw [hlive]; exact Option.some_ne_none 1))

end Bellman
