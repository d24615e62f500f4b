import Bellman.Proofs.NoiseLaw.Separated
import Bellman.Proofs.Session.Course
import Bellman.Proofs.Session.Scenarios

/-!
# The index of a noise

A noise has an index at a stage, the place of the value that it matches. A call may give the index
or leave it out. If the values of the support are apart, then a noise has at most one index, each
value has its own, and another order of the support changes the indices only by that order. An index
is accepted exactly if it is the one that is found without it, and the call goes the same way.
-/

namespace Bellman

open Data

namespace NoiseLaw

variable {S : Type} [CommRing S] [LinearOrder S] [Scalar S]

/-- Whether a law finds every noise exactly at the one value that it matches, in any order of its
support. -/
structure FindsMatches (law : NoiseLaw S) (limit : S) (tolerance : Value) : Prop where
  unique : ∀ (noise value other : List S) (i j : Nat), law.support[i]? = some value →
    law.support[j]? = some other → Matches limit value noise → Matches limit other noise → i = j
  matched : ∀ (noise : List S) (k : Nat), noise.length = law.dim →
    (law.indexOf noise tolerance = .ok k ↔
      ∃ value, law.support[k]? = some value ∧ Matches limit value noise)
  unmatched : ∀ noise : List S, noise.length = law.dim →
    (∀ value ∈ law.support, ¬ Matches limit value noise) →
    law.indexOf noise tolerance =
      .error (.unmatchedNoise (Scalar.writeVector noise) law.writeSupport)
  own : ∀ (value : List S) (k : Nat), law.support[k]? = some value →
    law.indexOf value tolerance = .ok k
  reordered : ∀ (law' : NoiseLaw S) (σ : Fin law.size ≃ Fin law'.size), law.Reorders law' σ →
    ∀ (noise : List S) (k : Fin law.size), noise.length = law.dim →
      (law'.indexOf noise tolerance = .ok (σ k : Nat) ↔ law.indexOf noise tolerance = .ok (k : Nat))
  plain : ∀ (noise : List S) (v : Value), Scalar.readVector "noise" (.int law.dim) v = .ok noise →
    law.indexOfValue v tolerance = law.indexOf noise tolerance

variable [IsStrictOrderedRing S] {law : NoiseLaw S} {limit : S} {tolerance : Number}

omit [CommRing S] [LinearOrder S] [IsStrictOrderedRing S] [Scalar S] in
theorem length_eq_dim {n : Nat} (h : ∀ value ∈ law.support, value.length = n) :
    ∀ value ∈ law.support, value.length = law.dim := by
  intro value hvalue
  have hhead : ∀ first ∈ law.support.head?, first.length = n :=
    fun first hfirst => h first (List.mem_of_mem_head? hfirst)
  rw [h value hvalue, dim, List.headD_eq_head?_getD]
  cases hempty : law.support.head? with
  | none =>
      rw [List.head?_eq_none_iff] at hempty
      rw [hempty] at hvalue
      cases hvalue
  | some first => exact (hhead first hempty).symm

/-- A noise has the index of the value that it matches. -/
theorem IsSeparated.indexOf_eq_ok_iff (h : law.IsSeparated limit)
    (hlimit : Scalar.read (.num tolerance) = .ok limit) (hnonneg : 0 ≤ limit) {noise : List S}
    {k : Nat} (hlength : ∀ value ∈ law.support, value.length = noise.length) :
    law.indexOf noise (.num tolerance) = .ok k ↔
      ∃ value, law.support[k]? = some value ∧ Matches limit value noise := by
  rw [indexOf_eq hlimit hnonneg (length_eq_dim hlength) noise,
    ← h.find?_eq_some_iff hnonneg hlength]
  cases law.find? limit noise with
  | none => simp only [reduceCtorEq]
  | some i => simp only [Except.ok.injEq, Option.some.injEq]

theorem IsSeparated.findsMatches (h : law.IsSeparated limit)
    (hlimit : Scalar.read (.num tolerance) = .ok limit) (hnonneg : 0 ≤ limit)
    (hdim : ∀ value ∈ law.support, value.length = law.dim) :
    law.FindsMatches limit (.num tolerance) where
  unique noise value other i j hi hj hvalue hother := h.unique hi hj hvalue hother
  matched noise k hlength :=
    h.indexOf_eq_ok_iff hlimit hnonneg fun value hvalue => (hdim value hvalue).trans hlength.symm
  unmatched noise hlength hnone := by
    have hlost : law.find? limit noise = none := by
      refine List.findIdx?_eq_none_iff.mpr ?_
      intro value hvalue
      have hsame := (hdim value hvalue).trans hlength.symm
      exact Bool.eq_false_iff.mpr fun hclose =>
        hnone value hvalue ((areClose_iff hnonneg hsame).mp hclose)
    rw [indexOf_eq hlimit hnonneg hdim noise, hlost]
  own value k hk := by
    have hvalue := hdim value (List.mem_of_getElem? hk)
    refine (h.indexOf_eq_ok_iff hlimit hnonneg ?_).mpr ⟨value, hk, Matches.refl hnonneg value⟩
    exact fun other hother => (hdim other hother).trans hvalue.symm
  reordered law' σ hσ noise k hlength := by
    have hnoise : ∀ value ∈ law.support, value.length = noise.length :=
      fun value hvalue => (hdim value hvalue).trans hlength.symm
    rw [h.indexOf_eq_ok_iff hlimit hnonneg hnoise, (h.reorder hσ).indexOf_eq_ok_iff hlimit hnonneg
      fun value hvalue => hnoise value (hσ.exists_mem hvalue), hσ k]
  plain noise v hv := by
    simp only [indexOfValue, hv, ok_bind]

end NoiseLaw

/-- A program that is targeted to a request with an index has the slot with that index live. -/
theorem StageProgram.IsAimed.live_eq {S : Type} [Scalar S] [Zero S] [Neg S] {setup : Setup S}
    {stage : Int} {q : StageProgram S} {r : Request S} {n : Number} (h : q.IsAimed setup stage r)
    (hindex : r.index = some n) : ∃ i, n.toInt? = some i ∧ q.live = some i.toNat := by
  obtain ⟨_, model, parts, cuts, hq⟩ := h
  simp only [aimed, hindex] at hq
  obtain ⟨-, -, i, hi, rfl⟩ := activate_eq_ok_iff.mp hq
  exact ⟨i, hi, live_switchOn _ _⟩

namespace Session

section Requests

variable {S : Type} [Scalar S] [Zero S] [One S] [Neg S] [Add S] [Sub S] [Mul S]
variable [LE S] [DecidableLE S] [LT S] [DecidableLT S]

/-- Whether the index of a noise may be given or left out at a stage with some law. -/
structure IndexIsFree (setup : Setup S) (stage : Int) (law : NoiseLaw S) (noise : List S)
    (v : Value) : Prop where
  omitted : noiseIndex setup stage noise .null =
    (law.indexOf noise (.num setup.params.noiseTolerance)).map fun k => .whole k
  given : ∀ (index : Int) (n : Number), noiseIndex setup stage noise (.int index) = .ok n ↔
    noiseIndex setup stage noise .null = .ok n ∧ n = .whole index
  solve_eq : ∀ (s : Session S) (state : Value) (f : NamedFunction S) (k : Nat),
    noiseIndex setup stage noise .null = .ok (.whole k) →
    s.solve setup stage state v f (.int k) = s.solve setup stage state v f .null
  /-- After any run, a call for the noise puts a program to the backend only if there is an index,
  and only the slot with that index is live in it. -/
  live : setup.params.updateMode = .slotReuse →
    ∀ (calls : List (Call S)) (state : Value) (f : NamedFunction S) (index : Value) q,
      (({} : Session S).run setup calls).handed setup ⟨stage, state, v, f, index⟩ = some q →
      ∃ k : Nat, noiseIndex setup stage noise .null = .ok (.whole k) ∧ q.live = some k ∧
        ∀ n, index = .num n → n.toInt? = some (k : Int)

variable {setup : Setup S} {stage : Int} {law : NoiseLaw S} {noise : List S} {v : Value}

omit [One S] [Neg S] [Add S] [Mul S] in
/-- An index that is given is accepted exactly if it is found without it. -/
theorem noiseIndex_int_iff {index : Int} {n : Number} :
    noiseIndex setup stage noise (.int index) = .ok n ↔
      noiseIndex setup stage noise .null = .ok n ∧ n = .whole index := by
  simp only [noiseIndex_eq_ok_iff, reduceCtorEq, false_and, false_or, or_false, true_and,
    Value.num.injEq]
  constructor
  · rintro ⟨law, i, hlaw, hfound, rfl, -, hsame⟩
    rw [Number.sameValue_whole (n := .whole index) rfl, decide_eq_true_eq] at hsame
    exact ⟨⟨law, i, hlaw, hfound, congrArg Number.whole hsame⟩, rfl⟩
  · rintro ⟨⟨law, i, hlaw, hfound, hi⟩, rfl⟩
    obtain rfl := Number.whole.inj hi
    have hlt := lt_size_of_indexOf hfound
    refine ⟨law, i, hlaw, hfound, rfl, ?_, ?_⟩
    · exact (Number.isInRange_iff rfl).mpr ⟨Int.natCast_nonneg i, Int.ofNat_lt.mpr hlt⟩
    · rw [Number.sameValue_whole (n := .whole i) rfl, decide_eq_true_eq]

omit [One S] [Neg S] [Add S] [Mul S] in
theorem readRequest_int {state : Value} {k : Nat}
    (hv : Scalar.readVector "noise" (.num setup.problem.noises) v = .ok noise)
    (hk : noiseIndex setup stage noise .null = .ok (.whole k)) :
    readRequest setup stage state v (.int k) = readRequest setup stage state v .null := by
  have hindex := noiseIndex_int_iff.mpr ⟨hk, rfl⟩
  simp only [readRequest, hv, ok_bind, hk, hindex]

theorem indexIsFree (hlaw : setup.problem.law stage = .ok law)
    (hv : Scalar.readVector "noise" (.num setup.problem.noises) v = .ok noise) :
    IndexIsFree setup stage law noise v where
  omitted := by
    simp only [noiseIndex, hlaw, ok_bind]
    cases law.indexOf noise (.num setup.params.noiseTolerance) <;> rfl
  given index n := noiseIndex_int_iff
  solve_eq s state f k hk := by simp only [solve, readRequest_int hv hk]
  live hmode calls state f index q hhanded := by
    obtain ⟨r, m, hputs, rfl⟩ := (isSound_run setup calls).puts_of_handed hhanded
    have hread := hputs.read
    simp only [readRequest, hv, ok_bind, hmode, bind_eq_ok, pure_eq_ok] at hread
    obtain ⟨xs, -, n, hn, rfl⟩ := hread
    obtain ⟨j, hj, hlive⟩ := hputs.aimed.live_eq rfl
    obtain ⟨law', i, hlaw', hfound, hindex⟩ := noiseIndex_eq_ok_iff.mp hn
    have hnull : noiseIndex setup stage noise .null = .ok (.whole i) :=
      noiseIndex_eq_ok_iff.mpr ⟨law', i, hlaw', hfound, .inl ⟨rfl, rfl⟩⟩
    have hi : j = i := by
      rcases hindex with ⟨-, rfl⟩ | ⟨-, -, hsame⟩
      · exact (Option.some.inj hj).symm
      · rw [Number.sameValue_whole hj, decide_eq_true_eq] at hsame
        exact hsame
    subst hi
    refine ⟨i, hnull, hlive, ?_⟩
    rintro n' rfl
    rcases hindex with ⟨hnone, -⟩ | ⟨hgiven, -⟩
    · cases hnone
    · rw [Value.num.inj hgiven]
      exact hj

end Requests

variable {S : Type} [CommRing S] [LinearOrder S] [IsStrictOrderedRing S] [Scalar S]
variable {law : NoiseLaw S} {support : List (List S)} {probabilities : List Value}
variable {limit : S} {tolerance : Number}

/-- The index of a noise. If any two values of an accepted law are more than twice the tolerance
apart in some coordinate, then every noise is found exactly at the one value that it matches, in any
order of the support, and at every stage with this law the index may be given or left out. -/
theorem separated_noise_index (haccepted : NoiseLaw.of support probabilities = .ok law)
    (hlimit : Scalar.read (.num tolerance) = .ok limit) (hnonneg : 0 ≤ limit)
    (hapart : law.IsSeparated limit) :
    law.FindsMatches limit (.num tolerance) ∧
    ∀ (setup : Setup S) (stage : Int), setup.problem.law stage = .ok law →
      setup.params.noiseTolerance = tolerance →
      ∀ (noise : List S) (v : Value),
        Scalar.readVector "noise" (.num setup.problem.noises) v = .ok noise →
        IndexIsFree setup stage law noise v :=
  ⟨hapart.findsMatches hlimit hnonneg (NoiseLaw.length_of_of haccepted),
    fun _ _ hlaw _ _ _ hv => indexIsFree hlaw hv⟩

end Session

namespace Stock

/-- The stock with two demands and a tolerance of one. -/
def withinOne (a b : ℚ) : Setup ℚ :=
  { twoSlots a b with params := { params .slotReuse with noiseTolerance := .whole 1 } }

/-- With a tolerance of one the demands one and four are apart, and three has the index of four,
whether it is given or not. -/
theorem noiseIndex_withinOne :
    (pair 1 4).IsSeparated 1 ∧ (pair 1 4).indexOf [3] (.num (.whole 1)) = .ok 1 ∧
      Session.noiseIndex (withinOne 1 4) 0 [3] .null = .ok (.whole 1) ∧
      Session.noiseIndex (withinOne 1 4) 0 [3] (.int 1) = .ok (.whole 1) := by
  have hapart : (pair 1 4).IsSeparated 1 := by
    refine List.pairwise_pair.mpr ⟨0, 1, 4, rfl, rfl, ?_⟩
    decide +kernel
  have hmatch : Matches (1 : ℚ) [4] [3] := by
    refine .cons ?_ .nil
    decide +kernel
  have hlimit : Scalar.read (.num (.whole 1)) = .ok (1 : ℚ) := rfl
  obtain ⟨hfinds, hfree⟩ := Session.separated_noise_index (of_pair 1 4) hlimit zero_le_one hapart
  have hfound := (hfinds.matched [3] 1 rfl).mpr ⟨[4], rfl, hmatch⟩
  have hindices := hfree (withinOne 1 4) 0 rfl rfl [3] (.list [.int 3]) rfl
  have hindex := hindices.omitted.trans (congrArg (Except.map _) hfound)
  exact ⟨hapart, hfound, hindex, (hindices.given 1 (.whole 1)).mpr ⟨hindex, rfl⟩⟩

end Stock

end Bellman
