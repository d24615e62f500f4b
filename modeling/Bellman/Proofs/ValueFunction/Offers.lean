import Bellman.Proofs.Exact
import Bellman.Proofs.Expr
import Bellman.Proofs.Reading
import Bellman.Proofs.ValueFunction
import Mathlib.Analysis.Convex.Function
import Mathlib.Order.WithBot

/-!
# The maximum of what was added

Cuts are offered to a value function one after the other, and some of them are refused. What is left
is the list of those accepted, in the order in which they were offered. In exact arithmetic the
value at a state is the least upper bound of the affine functions of this list, minus infinity if it
is empty; so neither the order of the cuts nor a repetition matters, more cuts never lower the
value, and it is convex in the state.
-/

namespace Bellman

open Data

variable {S : Type}

/-- A cut that is offered to a value function. -/
inductive Offer (S : Type) where
  /-- Slopes and an intercept, which is nothing if it is left out. -/
  | parts (slopes intercept : Value)
  /-- A cut whose slopes and intercept have yet to be read. -/
  | unread (slopes intercept : Value)
  /-- A cut of scalars. -/
  | ready (c : Cut S)

namespace Offer

/-- The cut of the given slopes and intercept over states of some dimension. -/
def read [Scalar S] (dim slopes intercept : Value) : Except Fault (Cut S) := do
  let xs ← Scalar.readVector "cut lambdas" dim slopes
  return ⟨xs, ← Scalar.read intercept⟩

/-- The cut that is offered to a value function of some dimension, or the fault with which it is
refused. -/
def cut [Scalar S] (dim : Value) : Offer S → Except Fault (Cut S)
  | parts slopes intercept =>
    match intercept with
    | .null => .error .betaMissing
    | intercept => read dim slopes intercept
  | unread slopes intercept => read dim slopes intercept
  | ready c =>
    if dim.isCount c.dim then .ok c else .error (.dimension "cut lambdas" dim (.int c.dim))

/-- The cut that a value function of some dimension accepts; none if it refuses the offer. -/
def cut? [Scalar S] (dim : Value) (o : Offer S) : Option (Cut S) :=
  (o.cut dim).toOption

theorem cut?_eq_some_iff [Scalar S] {dim : Value} {o : Offer S} {c : Cut S} :
    o.cut? dim = some c ↔ o.cut dim = .ok c := by
  unfold cut?
  cases o.cut dim with
  | ok c' => simp only [Except.toOption, Option.some.injEq, Except.ok.injEq]
  | error e => simp only [Except.toOption, reduceCtorEq]

/-- A cut that is accepted has as many slopes as a state has coordinates. -/
theorem isCount_of_cut [Scalar S] {dim : Value} {o : Offer S} {c : Cut S} (h : o.cut dim = .ok c) :
    dim.isCount c.dim = true := by
  have of_read : ∀ {slopes intercept}, read dim slopes intercept = .ok c →
      dim.isCount c.dim = true := by
    intro slopes intercept h
    simp only [read, bind_eq_ok, pure_eq_ok] at h
    obtain ⟨xs, hxs, s, -, rfl⟩ := h
    exact Scalar.isCount_of_readVector hxs
  cases o with
  | parts slopes intercept =>
      cases intercept with
      | null => cases h
      | _ => exact of_read h
  | unread slopes intercept => exact of_read h
  | ready c' =>
      simp only [cut] at h
      split at h
      · next hcount =>
          obtain rfl := Except.ok.inj h
          exact hcount
      · cases h

end Offer

section Values

variable [CommRing S] {n : Nat}

/-- The value of a cut at a state, with every coordinate of it. -/
def Cut.valueAt (c : Cut S) (x : Fin n → S) : S :=
  c.intercept + ∑ i : Fin n, c.slopes.getD i 0 * x i

theorem dot_ofFn {slopes : List S} (h : slopes.length = n) (x : Fin n → S) :
    dot slopes (List.ofFn x) = ∑ i : Fin n, slopes.getD i 0 * x i := by
  induction n generalizing slopes with
  | zero =>
      rw [List.eq_nil_of_length_eq_zero h]
      rfl
  | succ n ih =>
      cases slopes with
      | nil => cases h
      | cons s slopes =>
          rw [List.ofFn_succ, Fin.sum_univ_succ, dot, List.zipWith_cons_cons, total_eq_sum,
            List.sum_cons, ← total_eq_sum, ← dot, ih (Nat.succ.inj h)]
          rfl

/-- A cut is evaluated at all coordinates of a state if it has as many slopes. -/
theorem Cut.evaluate_ofFn {c : Cut S} (h : c.dim = n) (x : Fin n → S) :
    c.evaluate (List.ofFn x) = c.valueAt x := by
  rw [evaluate, valueAt, dot_ofFn h]

/-- A cut is an affine function. -/
theorem Cut.valueAt_combine (c : Cut S) {a b : S} (hab : a + b = 1) (x y : Fin n → S) :
    c.valueAt (a • x + b • y) = a * c.valueAt x + b * c.valueAt y := by
  have hintercept : c.intercept = a * c.intercept + b * c.intercept := by
    rw [← add_mul, hab, one_mul]
  have hsum : ∑ i : Fin n, c.slopes.getD i 0 * (a • x + b • y) i =
      a * ∑ i : Fin n, c.slopes.getD i 0 * x i + b * ∑ i : Fin n, c.slopes.getD i 0 * y i := by
    rw [Finset.mul_sum, Finset.mul_sum, ← Finset.sum_add_distrib]
    refine Finset.sum_congr rfl fun i _ => ?_
    simp only [Pi.add_apply, Pi.smul_apply, smul_eq_mul]
    ring
  unfold valueAt
  rw [hsum]
  conv_lhs => rw [hintercept]
  ring

end Values

namespace ValueFunction

section Offers

variable [Scalar S] {v : ValueFunction S} {o : Offer S}

/-- A value function with one more cut, if it accepts what is offered. -/
def take (v : ValueFunction S) : Offer S → Except Fault (ValueFunction S)
  | .parts slopes intercept => v.add slopes intercept
  | .unread slopes intercept => (v.readCut slopes intercept).map v.push
  | .ready c => v.addCut c

/-- What an offer leaves behind, whether it is accepted or not. -/
def afterOffer (v : ValueFunction S) (o : Offer S) : ValueFunction S :=
  match v.take o with
  | .ok v' => v'
  | .error _ => v

/-- What is left after one offer after another. -/
def afterOffers (v : ValueFunction S) (offers : List (Offer S)) : ValueFunction S :=
  offers.foldl afterOffer v

/-- The value function of some dimension that offers leave of one without cuts. -/
def ofOffers (dim : Value) (offers : List (Offer S)) : ValueFunction S :=
  afterOffers { dim } offers

theorem take_eq (v : ValueFunction S) (o : Offer S) : v.take o = (o.cut v.dim).map v.push := by
  cases o with
  | parts slopes intercept => cases intercept <;> rfl
  | unread slopes intercept => rfl
  | ready c =>
      simp only [take, addCut, Offer.cut]
      split <;> rfl

/-- An offer adds the cut at the end, or is refused and changes nothing. -/
theorem take_or_refuse (v : ValueFunction S) (o : Offer S) :
    (∃ c, o.cut v.dim = .ok c ∧ v.take o = .ok (v.push c) ∧ v.afterOffer o = v.push c) ∨
      ∃ e, o.cut v.dim = .error e ∧ v.take o = .error e ∧ v.afterOffer o = v := by
  rw [afterOffer, take_eq]
  cases o.cut v.dim with
  | ok c => exact .inl ⟨c, rfl, rfl, rfl⟩
  | error e => exact .inr ⟨e, rfl, rfl, rfl⟩

theorem afterOffer_eq (v : ValueFunction S) (o : Offer S) :
    v.afterOffer o = { v with cuts := v.cuts ++ (o.cut? v.dim).toList } := by
  rcases v.take_or_refuse o with ⟨c, hcut, -, hafter⟩ | ⟨e, hcut, -, hafter⟩
  · rw [hafter, Offer.cut?, hcut]
    rfl
  · rw [hafter, Offer.cut?, hcut]
    change v = { v with cuts := v.cuts ++ [] }
    rw [List.append_nil]

/-- A run of offers adds the cuts that are accepted, in their order, and changes nothing else. -/
theorem afterOffers_eq (v : ValueFunction S) (offers : List (Offer S)) :
    v.afterOffers offers =
      { v with cuts := v.cuts ++ offers.filterMap (Offer.cut? v.dim) } := by
  induction offers generalizing v with
  | nil => simp only [afterOffers, List.foldl_nil, List.filterMap_nil, List.append_nil]
  | cons o offers ih =>
      change (v.afterOffer o).afterOffers offers = _
      rw [ih, afterOffer_eq, List.filterMap_cons]
      cases o.cut? v.dim with
      | none => simp only [Option.toList_none, List.append_nil]
      | some c => simp only [Option.toList_some, List.append_assoc, List.singleton_append]

theorem cuts_ofOffers (dim : Value) (offers : List (Offer S)) :
    (ofOffers dim offers).cuts = offers.filterMap (Offer.cut? dim) := by
  rw [ofOffers, afterOffers_eq, List.nil_append]

theorem dim_ofOffers (dim : Value) (offers : List (Offer S)) :
    (ofOffers dim offers).dim = dim := by
  rw [ofOffers, afterOffers_eq]

theorem dim_of_mem_ofOffers {dim : Value} {offers : List (Offer S)} {n : Nat}
    (hdim : dim.isCount n = true) : ∀ c ∈ (ofOffers dim offers).cuts, c.dim = n := by
  intro c hc
  rw [cuts_ofOffers] at hc
  obtain ⟨o, -, ho⟩ := List.mem_filterMap.mp hc
  exact Value.eq_of_isCount (Offer.isCount_of_cut (Offer.cut?_eq_some_iff.mp ho)) hdim

end Offers

section Maximum

variable [CommRing S] [LinearOrder S] {v w : ValueFunction S} {n : Nat}

/-- The value that an evaluation gives, minus infinity if it gives none. -/
def height : Option S → WithBot S
  | none => ⊥
  | some e => e

/-- The value at a state, minus infinity if there are no cuts. -/
def valueAt (v : ValueFunction S) (x : Fin n → S) : WithBot S :=
  height (v.evaluate? (List.ofFn x))

/-- Whether a value function is a maximum of affine functions of `n` coordinates. -/
structure IsMaximum (v : ValueFunction S) (n : Nat) : Prop where
  dim_eq : ∀ c ∈ v.cuts, c.dim = n
  isLUB : ∀ x : Fin n → S, IsLUB {a : WithBot S | ∃ c ∈ v.cuts, c.valueAt x = a} (v.valueAt x)
  reordered : ∀ (w : ValueFunction S) (x : Fin n → S), (∀ c, c ∈ w.cuts ↔ c ∈ v.cuts) →
    w.valueAt x = v.valueAt x
  appended : ∀ (w : ValueFunction S) (x : Fin n → S),
    ({ v with cuts := v.cuts ++ w.cuts } : ValueFunction S).valueAt x =
      max (v.valueAt x) (w.valueAt x)
  empty : v.cuts = [] → ∀ x : Fin n → S, v.valueAt x = ⊥
  convex : v.cuts ≠ [] → ∃ f : (Fin n → S) → S,
    ConvexOn S Set.univ f ∧ ∀ x, v.valueAt x = f x

theorem evaluate?_eq_none_iff {z : List S} : v.evaluate? z = none ↔ v.cuts = [] := by
  unfold evaluate?
  split
  · next h => simp only [List.map_eq_nil_iff.mp h]
  · next first rest h =>
      have hne : v.cuts ≠ [] := by
        intro hnil
        rw [hnil] at h
        cases h
      simp only [reduceCtorEq, hne]

theorem valueAt_le_iff {x : Fin n → S} {bound : WithBot S} :
    v.valueAt x ≤ bound ↔ ∀ c ∈ v.cuts, (c.evaluate (List.ofFn x) : WithBot S) ≤ bound := by
  unfold valueAt
  cases h : v.evaluate? (List.ofFn x) with
  | none =>
      rw [evaluate?_eq_none_iff.mp h]
      simp only [height, bot_le, List.not_mem_nil, false_implies, implies_true]
  | some e =>
      obtain ⟨c, hc⟩ : ∃ c, c ∈ v.cuts := by
        refine List.exists_mem_of_ne_nil _ fun hnil => ?_
        rw [evaluate?_eq_none_iff.mpr hnil] at h
        cases h
      induction bound using WithBot.recBotCoe with
      | bot =>
          simp only [height, le_bot_iff, WithBot.coe_ne_bot, false_iff]
          exact fun hall => hall c hc
      | coe b =>
          simp only [height, WithBot.coe_le_coe]
          rw [← evaluate?_le_iff, h]
          simp only [Option.mem_def, Option.some.injEq, forall_eq']

theorem valueAt_congr {x : Fin n → S} (h : ∀ c, c ∈ w.cuts ↔ c ∈ v.cuts) :
    w.valueAt x = v.valueAt x := by
  refine eq_of_forall_ge_iff fun bound => ?_
  simp only [valueAt_le_iff, h]

theorem valueAt_append {x : Fin n → S} (dim : Value) (cuts cuts' : List (Cut S)) :
    (⟨dim, cuts ++ cuts'⟩ : ValueFunction S).valueAt x =
      max ((⟨dim, cuts⟩ : ValueFunction S).valueAt x)
        ((⟨dim, cuts'⟩ : ValueFunction S).valueAt x) := by
  refine eq_of_forall_ge_iff fun bound => ?_
  simp only [max_le_iff, valueAt_le_iff, List.forall_mem_append]

variable [IsStrictOrderedRing S]

/-- The maximum of affine functions is convex. -/
theorem exists_convexOn (hdim : ∀ c ∈ v.cuts, c.dim = n) (hne : v.cuts ≠ []) :
    ∃ f : (Fin n → S) → S, ConvexOn S Set.univ f ∧ ∀ x, v.valueAt x = f x := by
  have hsome : ∀ x : Fin n → S, ∃ e : S, v.valueAt x = e := by
    intro x
    unfold valueAt
    cases h : v.evaluate? (List.ofFn x) with
    | none => exact absurd (evaluate?_eq_none_iff.mp h) hne
    | some e => exact ⟨e, rfl⟩
  choose f hf using hsome
  have hle : ∀ (x : Fin n → S) (bound : S),
      f x ≤ bound ↔ ∀ c ∈ v.cuts, c.valueAt x ≤ bound := by
    intro x bound
    rw [← WithBot.coe_le_coe, ← hf, valueAt_le_iff]
    refine forall₂_congr fun c hc => ?_
    rw [WithBot.coe_le_coe, Cut.evaluate_ofFn (hdim c hc)]
  refine ⟨f, ⟨convex_univ, ?_⟩, hf⟩
  intro x _ y _ a b ha hb hab
  rw [hle]
  intro c hc
  rw [c.valueAt_combine hab]
  have hx := mul_le_mul_of_nonneg_left ((hle x (f x)).mp le_rfl c hc) ha
  have hy := mul_le_mul_of_nonneg_left ((hle y (f y)).mp le_rfl c hc) hb
  exact add_le_add hx hy

theorem isMaximum (hdim : ∀ c ∈ v.cuts, c.dim = n) : v.IsMaximum n where
  dim_eq := hdim
  isLUB x := by
    refine isLUB_iff_le_iff.mpr fun bound => ?_
    rw [valueAt_le_iff]
    constructor
    · rintro h _ ⟨c, hc, rfl⟩
      rw [← Cut.evaluate_ofFn (hdim c hc)]
      exact h c hc
    · intro h c hc
      rw [Cut.evaluate_ofFn (hdim c hc)]
      exact h ⟨c, hc, rfl⟩
  reordered w x h := valueAt_congr h
  appended w x := valueAt_append v.dim v.cuts w.cuts
  empty hnil x := by
    rw [valueAt, evaluate?_eq_none_iff.mpr hnil]
    rfl
  convex hne := exists_convexOn hdim hne

end Maximum

variable [CommRing S] [LinearOrder S] [IsStrictOrderedRing S] [Scalar S]

/-- What offers make of a value function without cuts. Its cuts are those that are accepted, in the
order in which they are offered, and an offer that is refused changes nothing. Over states of its
dimension it is the maximum of its cuts, which all count with every coordinate, and further offers
never lower it. -/
theorem isMaximum_ofOffers (dim : Value) (offers : List (Offer S)) :
    (ofOffers dim offers).cuts = offers.filterMap (Offer.cut? dim) ∧
    (∀ (v : ValueFunction S) (o : Offer S),
      (∃ c, o.cut v.dim = .ok c ∧ v.take o = .ok (v.push c) ∧ v.afterOffer o = v.push c) ∨
        ∃ e, o.cut v.dim = .error e ∧ v.take o = .error e ∧ v.afterOffer o = v) ∧
    ∀ n : Nat, dim.isCount n = true →
      (ofOffers dim offers).IsMaximum n ∧
      ∀ x : Fin n → S,
        (∀ more, (ofOffers dim offers).valueAt x ≤ (ofOffers dim (offers ++ more)).valueAt x) ∧
        ∀ given : Value, Scalar.readVector "state" dim given = .ok (List.ofFn x) →
          ((ofOffers dim offers).evaluateAt given).map height =
            .ok ((ofOffers dim offers).valueAt x) := by
  refine ⟨cuts_ofOffers dim offers, take_or_refuse, ?_⟩
  intro n hdim
  refine ⟨isMaximum (dim_of_mem_ofOffers hdim), fun x => ⟨fun more => ?_, fun given hgiven => ?_⟩⟩
  · rw [valueAt_le_iff]
    intro c hc
    refine valueAt_le_iff.mp le_rfl c ?_
    rw [cuts_ofOffers, List.filterMap_append, ← cuts_ofOffers]
    exact List.mem_append_left _ hc
  · rw [evaluateAt, dim_ofOffers, hgiven, ok_bind]
    rfl

end ValueFunction

namespace Stock

/-- Offers of which the first and the last are accepted; between them one has a slope too many, one
has no intercept, and one has a slope that is no number. -/
def offers : List (Offer ℚ) :=
  [.parts (.list [.int 1]) (.int 0), .parts (.list [.int 1, .int 2]) (.int 0),
    .parts (.list [.int 1]) .null, .unread (.list [.text "steep"]) (.int 0), .ready ⟨[-1], 4⟩]

/-- Two of the offers are accepted, and the value at three is that of the first. -/
theorem isMaximum_offers :
    (Value.int 1).isCount 1 = true ∧
      (ValueFunction.ofOffers (.int 1) offers).cuts = [⟨[1], 0⟩, ⟨[-1], 4⟩] ∧
      (ValueFunction.ofOffers (.int 1) offers).IsMaximum 1 ∧
      ((ValueFunction.ofOffers (.int 1) offers).evaluateAt (.list [.int 3])).map
        ValueFunction.height = .ok ((3 : ℚ) : WithBot ℚ) := by
  obtain ⟨hcuts, -, hmaximum⟩ := ValueFunction.isMaximum_ofOffers (S := ℚ) (.int 1) offers
  obtain ⟨hmax, hvalue⟩ := hmaximum 1 (Value.isCount_natCast 1)
  have hread : Scalar.readVector "state" (.int 1) (.list [.int 3]) = .ok (List.ofFn ![(3 : ℚ)]) :=
    rfl
  refine ⟨Value.isCount_natCast 1, hcuts.trans rfl, hmax, ?_⟩
  have hthree : (ValueFunction.ofOffers (.int 1) offers).valueAt ![3] = ((3 : ℚ) : WithBot ℚ) := by
    decide +kernel
  rw [(hvalue ![3]).2 _ hread, hthree]

end Stock

end Bellman
