import Bellman.Proofs.NoiseLaw
import Bellman.Proofs.Reading
import Mathlib.Algebra.Order.Ring.Abs
import Mathlib.Tactic.Linarith

/-!
# Laws whose values are apart

A noise is matched to the first value of the support that is close to it in every coordinate. In
exact arithmetic that is a bound on distances, so no noise is close to two values that are more than
twice the tolerance apart in some coordinate. If any two values of a support are so far apart, then
the first match is the only one, and the order of the support does not matter.
-/

namespace Bellman

open Data

variable {S : Type} [CommRing S] [LinearOrder S]

/-- Whether a value and a noise have as many coordinates, none of them further apart than the
tolerance. -/
def Matches (limit : S) (value noise : List S) : Prop :=
  List.Forall₂ (fun a b => |a - b| ≤ limit) value noise

/-- Whether two values are more than twice the tolerance apart in some coordinate. -/
def AreApart (limit : S) (value other : List S) : Prop :=
  ∃ (n : Nat) (a b : S), value[n]? = some a ∧ other[n]? = some b ∧ 2 * limit < |a - b|

variable [IsStrictOrderedRing S] {limit : S} {value other noise : List S}

theorem Matches.refl (hnonneg : 0 ≤ limit) (value : List S) : Matches limit value value :=
  List.forall₂_same.mpr fun a _ => by rwa [sub_self, abs_zero]

omit [IsStrictOrderedRing S] in
theorem AreApart.symm (h : AreApart limit value other) : AreApart limit other value := by
  obtain ⟨n, a, b, ha, hb, hlt⟩ := h
  exact ⟨n, b, a, hb, ha, abs_sub_comm a b ▸ hlt⟩

/-- No noise matches two values that are apart. -/
theorem AreApart.not_matches (h : AreApart limit value other) (hvalue : Matches limit value noise) :
    ¬ Matches limit other noise := by
  intro hother
  obtain ⟨n, a, b, ha, hb, hlt⟩ := h
  obtain ⟨x, hx, hax⟩ := getElem?_of_forall₂ hvalue ha
  obtain ⟨y, hy, hby⟩ := getElem?_of_forall₂ hother hb
  obtain rfl := Option.some.inj (hx.symm.trans hy)
  have htriangle : |a - b| ≤ |a - x| + |x - b| := abs_sub_le a x b
  rw [abs_sub_comm x b] at htriangle
  linarith

omit [IsStrictOrderedRing S] in
/-- In exact arithmetic there are no infinities, so scalars are close if they are not too far apart.
-/
theorem isClose_iff {a b : S} (hlimit : 0 ≤ limit) :
    isClose limit a b = true ↔ |a - b| ≤ limit := by
  have hfinite : ∀ x : S, isFinite x = true := by
    intro x
    simp only [isFinite, sub_self, le_refl, decide_true]
  simp only [isClose, hfinite, Bool.true_and, Bool.or_eq_true, Bool.and_eq_true,
    decide_eq_true_eq, abs_le']
  constructor
  · rintro (⟨hle, hge⟩ | ⟨hba, hab⟩)
    · obtain rfl := le_antisymm hle hge
      simpa only [sub_self, neg_zero, and_self] using hlimit
    · exact ⟨hab, (neg_sub a b).symm ▸ hba⟩
  · rintro ⟨hab, hba⟩
    exact .inr ⟨neg_sub a b ▸ hba, hab⟩

omit [IsStrictOrderedRing S] in
theorem areClose_iff (hlimit : 0 ≤ limit) (hlength : value.length = noise.length) :
    areClose limit value noise = true ↔ Matches limit value noise := by
  induction value generalizing noise with
  | nil =>
      obtain rfl := List.eq_nil_of_length_eq_zero hlength.symm
      exact iff_of_true rfl .nil
  | cons a value ih =>
      cases noise with
      | nil => cases hlength
      | cons b noise =>
          have hrest := ih (Nat.succ.inj hlength)
          simp only [areClose, Matches] at hrest ⊢
          simp only [List.zip_cons_cons, List.all_cons, Bool.and_eq_true, List.forall₂_cons,
            isClose_iff hlimit, hrest]

namespace NoiseLaw

variable {law : NoiseLaw S} {i j k : Nat}

omit [IsStrictOrderedRing S] in
/-- Whether any two values of a support are apart. -/
def IsSeparated (law : NoiseLaw S) (limit : S) : Prop :=
  law.support.Pairwise (AreApart limit)

/-- Two places of a separated support whose values match one noise are the same. -/
theorem IsSeparated.unique (h : law.IsSeparated limit) (hi : law.support[i]? = some value)
    (hj : law.support[j]? = some other) (hvalue : Matches limit value noise)
    (hother : Matches limit other noise) : i = j := by
  obtain ⟨hilt, rfl⟩ := List.getElem?_eq_some_iff.mp hi
  obtain ⟨hjlt, rfl⟩ := List.getElem?_eq_some_iff.mp hj
  have hpairs := List.pairwise_iff_getElem.mp h
  rcases Nat.lt_trichotomy i j with hij | hij | hij
  · exact absurd hother ((hpairs i j hilt hjlt hij).not_matches hvalue)
  · exact hij
  · exact absurd hvalue ((hpairs j i hjlt hilt hij).not_matches hother)

/-- In a separated support a noise is found in the place of the value that it matches. -/
theorem IsSeparated.find?_eq_some_iff (h : law.IsSeparated limit) (hlimit : 0 ≤ limit)
    (hlength : ∀ value ∈ law.support, value.length = noise.length) :
    law.find? limit noise = some k ↔
      ∃ value, law.support[k]? = some value ∧ Matches limit value noise := by
  have hclose : ∀ (n : Nat) (hn : n < law.support.length),
      areClose limit law.support[n] noise = true ↔ Matches limit law.support[n] noise :=
    fun n hn => areClose_iff hlimit (hlength _ (List.getElem_mem hn))
  constructor
  · intro hfind
    obtain ⟨hk, hmatch, -⟩ := List.findIdx?_eq_some_iff_getElem.mp hfind
    exact ⟨_, List.getElem?_eq_getElem hk, (hclose k hk).mp hmatch⟩
  · rintro ⟨value, hk, hmatch⟩
    obtain ⟨hlt, rfl⟩ := List.getElem?_eq_some_iff.mp hk
    refine List.findIdx?_eq_some_iff_getElem.mpr ⟨hlt, (hclose k hlt).mpr hmatch, ?_⟩
    intro n hn hother
    have hn' := hn.trans hlt
    have hsame := h.unique (List.getElem?_eq_getElem hn') hk ((hclose n hn').mp hother) hmatch
    exact absurd hsame (Nat.ne_of_lt hn)

/-- Whether a law has the values of another one in another order. -/
def Reorders (law law' : NoiseLaw S) (σ : Fin law.size ≃ Fin law'.size) : Prop :=
  ∀ k, law'.support[(σ k : Nat)]? = law.support[(k : Nat)]?

section Reorders

variable {law' : NoiseLaw S} {σ : Fin law.size ≃ Fin law'.size}

omit [CommRing S] [LinearOrder S] [IsStrictOrderedRing S] in
theorem Reorders.exists_mem (h : law.Reorders law' σ) (hvalue : value ∈ law'.support) :
    value ∈ law.support := by
  obtain ⟨n, hn⟩ := List.mem_iff_getElem?.mp hvalue
  have hsize : n < law'.size := (List.getElem?_eq_some_iff.mp hn).1
  have hsame := h (σ.symm ⟨n, hsize⟩)
  rw [Equiv.apply_symm_apply] at hsame
  exact List.mem_iff_getElem?.mpr ⟨_, hsame.symm.trans hn⟩

omit [IsStrictOrderedRing S] in
/-- The values of a separated support are apart in any order. -/
theorem IsSeparated.reorder (h : law.IsSeparated limit) (hσ : law.Reorders law' σ) :
    law'.IsSeparated limit := by
  have hplace : ∀ (n : Nat) (hn : n < law'.size), ∃ k, σ k = ⟨n, hn⟩ ∧
      law.support[(k : Nat)]? = some law'.support[n] := by
    intro n hn
    refine ⟨σ.symm ⟨n, hn⟩, Equiv.apply_symm_apply .., ?_⟩
    rw [← hσ, Equiv.apply_symm_apply]
    exact List.getElem?_eq_getElem hn
  refine List.pairwise_iff_getElem.mpr ?_
  intro i j hi hj hij
  obtain ⟨a, ha, hi'⟩ := hplace i hi
  obtain ⟨b, hb, hj'⟩ := hplace j hj
  obtain ⟨_, hvalue⟩ := List.getElem?_eq_some_iff.mp hi'
  obtain ⟨_, hother⟩ := List.getElem?_eq_some_iff.mp hj'
  have hpairs := List.pairwise_iff_getElem.mp h
  rw [← hvalue, ← hother]
  rcases Nat.lt_trichotomy a b with hab | hab | hab
  · exact hpairs a b _ _ hab
  · obtain rfl := Fin.ext hab
    exact absurd (congrArg Fin.val (ha.symm.trans hb)) (Nat.ne_of_lt hij)
  · exact (hpairs b a _ _ hab).symm

end Reorders

variable [Scalar S] {tolerance : Number}

omit [IsStrictOrderedRing S] in
/-- The index of a noise is the one at which it is found, and there is none if it is not. -/
theorem indexOf_eq (hlimit : Scalar.read (.num tolerance) = .ok limit) (hnonneg : 0 ≤ limit)
    (hdim : ∀ value ∈ law.support, value.length = law.dim) (noise : List S) :
    law.indexOf noise (.num tolerance) =
      match law.find? limit noise with
      | some k => .ok k
      | none => .error (.unmatchedNoise (Scalar.writeVector noise) law.writeSupport) := by
  have hread : (Value.num tolerance).toReal = .ok tolerance := rfl
  unfold indexOf
  by_cases hzero : law.dim = 0
  · simp only [hzero, if_true, pure_bind, lt_irrefl, if_false,
      find?_of_dim_eq_zero hzero hdim 0 limit]
    cases law.find? limit noise <;> rfl
  · simp only [hzero, if_false, hread, ok_bind, hlimit, not_lt_of_ge hnonneg]
    cases law.find? limit noise <;> rfl

end NoiseLaw

end Bellman
