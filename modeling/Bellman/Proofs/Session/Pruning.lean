import Bellman.Proofs.Session.CutRows

/-!
# When cuts are taken away

A model is built anew when the value function has fewer cuts than were counted. So if cuts are taken
away between two solves of a stage, and fewer cuts come back, the rows are those of the cuts that
are left. If at least as many cuts come back, the model does not notice: it keeps its rows, and only
the cuts beyond those that were counted get new ones.

So the rows are right after cuts were taken away exactly if there are fewer of them in the end, or
the cuts that were counted are all back in their places.
-/

namespace Bellman

open Data

variable {S : Type}

namespace StageProgram

theorem cutColumn_injective (p : StageProgram S) {i j : Nat} (h : p.cutColumn i = p.cutColumn j) :
    i = j := by
  unfold cutColumn at h
  cases hcut : p.cutVariable with
  | nextState =>
      rw [hcut] at h
      exact Column.nextState.inj h
  | state =>
      rw [hcut] at h
      exact Column.state.inj h

variable [Zero S] [One S] [Neg S]

/-- Different cuts have different rows. -/
theorem cutRow_injective (p : StageProgram S) {m n : Nat} {c d : Cut S}
    (h : p.cutRow m c = p.cutRow n d) : c = d := by
  obtain ⟨-, hbody, -⟩ := Row.mk.inj h
  obtain ⟨hintercept, hslopes⟩ := List.cons.inj hbody
  have hterms := List.append_cancel_right hslopes
  have hzip : c.slopes.zipIdx = d.slopes.zipIdx := by
    apply List.map_injective_iff.mpr _ hterms
    rintro ⟨s, i⟩ ⟨t, j⟩ hterm
    obtain ⟨hst, hij⟩ := Multiple.single.inj (Term.multiple.inj hterm)
    rw [hst, p.cutColumn_injective hij]
  have hall := congrArg (List.map Prod.fst) hzip
  rw [List.zipIdx_map_fst, List.zipIdx_map_fst] at hall
  have hconstant : c.intercept = d.intercept :=
    Weight.constant.inj (Term.weight.inj hintercept)
  obtain ⟨_, _⟩ := c
  exact congrArg₂ Cut.mk hall hconstant

/-- The rows of cuts are those of a list exactly if the cuts are. -/
theorem cutRows_eq_iff (p : StageProgram S) {cuts : List (Cut S)} :
    p.cutRows = cuts.zipIdx.map (fun (c, n) => p.cutRow n c) ↔ p.cuts = cuts := by
  constructor
  · intro h
    have hzip : p.cuts.zipIdx = cuts.zipIdx := by
      apply List.map_injective_iff.mpr _ h
      rintro ⟨c, m⟩ ⟨d, n⟩ hrow
      have hn : m = n := RowName.cut.inj (Row.mk.inj hrow).1
      exact Prod.ext (p.cutRow_injective hrow) hn
    have hall := congrArg (List.map Prod.fst) hzip
    rwa [List.zipIdx_map_fst, List.zipIdx_map_fst] at hall
  · rintro rfl
    rfl

end StageProgram

variable [Scalar S] [Zero S] [One S] [Neg S] [Add S] [Sub S] [Mul S]
variable [LE S] [DecidableLE S] [LT S] [DecidableLT S]
variable {setup : Setup S} {s : Session S} {stage : Int} {c d : Call S} {p q : StageProgram S}

namespace Session

theorem IsSound.syncs_of_handed (h : s.IsSound setup) (hq : s.handed setup c = some q) :
    s.Syncs setup c (some q) := by
  rcases h.cases_after c with ⟨q', hsyncs⟩ | ⟨-, hasked, -⟩ | ⟨_, _, -, -, -, hstops⟩
  · obtain rfl := hsyncs.handed_eq.symm.trans hq
    exact hsyncs
  · cases (handed_eq_none hasked).symm.trans hq
  · cases (handed_eq_none hstops.asked).symm.trans hq

/-- A call of another stage, or one that reaches no model, leaves the model of a stage as it was,
if the cuts of the value function that the model was built against fit. -/
theorem IsSound.model?_after (h : s.IsSound setup) {m : StageModel S}
    (hmodel : s.model? stage = some m)
    (hfits : c.function.id = m.functionId → ∀ cut ∈ c.function.function.cuts,
      (Value.num setup.problem.states).isCount cut.dim = true)
    (hidle : s.reaches setup c = true → c.stage ≠ stage) :
    (s.after setup c).model? stage = some m := by
  rcases h.cases_after c with
    ⟨q, hsyncs⟩ | ⟨-, -, hmodels⟩ | ⟨r, m', -, hmodel', hserves, hstops⟩
  · obtain ⟨_, hmodels, -⟩ := hsyncs.model
    have hstage : c.stage ≠ stage := hidle hsyncs.reaches
    rw [hmodels, if_neg (Ne.symm hstage), hmodel]
  · rw [model?, hmodels]
    exact hmodel
  · rw [hstops.model]
    by_cases hstage : stage = c.stage
    · -- The model would serve the call, but then its cuts fit.
      rw [hstage] at hmodel
      obtain rfl := Option.some.inj (hmodel'.symm.trans hmodel)
      obtain ⟨cut, hcut, hdim, -⟩ := hstops.misfit
      simp only [StageModel.serves, Bool.and_eq_true, decide_eq_true_eq] at hserves
      have hcount := hfits hserves.1.symm cut (List.mem_of_mem_drop hcut)
      exact absurd (Number.eq_of_isCount (h c.stage m' hmodel').toCount_states hcount) hdim
    · rw [if_neg hstage, hmodel]

/-- The model of a stage stays as it is while no call of the stage reaches it. -/
theorem IsSound.model?_run (h : s.IsSound setup) {m : StageModel S} {calls : List (Call S)}
    (hmodel : s.model? stage = some m)
    (hfits : ∀ c ∈ calls, c.function.id = m.functionId → ∀ cut ∈ c.function.function.cuts,
      (Value.num setup.problem.states).isCount cut.dim = true)
    (hidle : ∀ c ∈ s.reached setup calls, c.stage ≠ stage) :
    (s.run setup calls).IsSound setup ∧ (s.run setup calls).model? stage = some m := by
  induction calls generalizing s with
  | nil => exact ⟨h, hmodel⟩
  | cons c calls ih =>
      obtain ⟨hfirst, hrest⟩ := List.forall_mem_cons.mp hfits
      have hsublist : ∀ d ∈ (s.after setup c).reached setup calls, d.stage ≠ stage := by
        intro d hd
        apply hidle d
        simp only [reached]
        split
        · exact List.mem_cons_of_mem _ hd
        · exact hd
      refine ih (h.solve c).1 (h.model?_after hmodel hfirst ?_) hrest hsublist
      intro hreaches
      apply hidle c
      simp only [reached, hreaches, if_true]
      exact List.mem_cons_self

/-- The rows of a call after another one of its stage with the same value function: they are built
anew if there are fewer cuts, and else are those of the earlier call and of the cuts beyond. -/
theorem IsSound.cuts_handed (h : s.IsSound setup) {between : List (Call S)}
    (hp : s.handed setup c = some p)
    (hidle : ∀ e ∈ (s.after setup c).reached setup between, e.stage ≠ c.stage)
    (hfits : ∀ e ∈ between, e.function.id = c.function.id → ∀ cut ∈ e.function.function.cuts,
      (Value.num setup.problem.states).isCount cut.dim = true)
    (hstage : d.stage = c.stage) (hid : d.function.id = c.function.id)
    (hq : ((s.after setup c).run setup between).handed setup d = some q) :
    q.cuts = if d.function.function.size < c.function.function.size then d.function.function.cuts
      else p.cuts ++ d.function.function.cuts.drop c.function.function.size := by
  have hsyncs := h.syncs_of_handed hp
  obtain ⟨m, hmodels, hmid, hsynced, hcuts⟩ := hsyncs.model
  rw [← hsyncs.cuts p rfl] at hcuts
  have hmodel : (s.after setup c).model? c.stage = some m := by
    rw [hmodels, if_pos rfl]
  obtain ⟨hsound, hkept⟩ := (h.solve c).1.model?_run hmodel
    (fun e he heq => hfits e he (heq.trans hmid)) hidle
  rw [← hstage] at hkept
  rw [(hsound.syncs_of_handed hq).cuts q rfl]
  by_cases hfewer : d.function.function.size < c.function.function.size
  · rw [if_pos hfewer]
    apply rowsFor_of_not_serves
    intro m' hm'
    obtain rfl := Option.some.inj (hm'.symm.trans hkept)
    simp only [StageModel.serves, Bool.and_eq_false_iff, decide_eq_false_iff_not, hsynced]
    exact .inr (Nat.not_le.mpr hfewer)
  · have hserves : m.serves d.function = true := by
      simp only [StageModel.serves, Bool.and_eq_true, decide_eq_true_eq, hsynced]
      exact ⟨hmid.trans hid.symm, Nat.not_lt.mp hfewer⟩
    rw [if_neg hfewer, rowsFor_of_serves hkept hserves, hcuts, StageModel.newCuts, hsynced]

/-- When no cut is stale after cuts were taken away. Whatever a session has done before, if a stage
is solved twice with one value function, and its model is not reached in between, the rows of the
second solve are those of the cuts at that time, in order and no others, exactly if there are fewer
cuts than at the first solve or these are all in their places, provided that the rows of the first
solve were right. In any case they are the rows of all cuts if there are fewer of them, and else
those of the first solve and of the cuts beyond. -/
theorem cutRows_handed_iff (before between : List (Call S))
    (hp : (({} : Session S).run setup before).handed setup c = some p)
    (hidle : ∀ e ∈ (({} : Session S).run setup (before ++ [c])).reached setup between,
      e.stage ≠ c.stage)
    (hfits : ∀ e ∈ between, e.function.id = c.function.id → ∀ cut ∈ e.function.function.cuts,
      (Value.num setup.problem.states).isCount cut.dim = true)
    (hstage : d.stage = c.stage) (hid : d.function.id = c.function.id)
    (hq : (({} : Session S).run setup (before ++ [c] ++ between)).handed setup d = some q) :
    (q.cuts = if d.function.function.size < c.function.function.size then d.function.function.cuts
      else p.cuts ++ d.function.function.cuts.drop c.function.function.size) ∧
    (p.cuts = c.function.function.cuts →
      (q.cutRows = d.function.function.cuts.zipIdx.map (fun (cut, n) => q.cutRow n cut) ↔
        d.function.function.size < c.function.function.size ∨
          c.function.function.cuts <+: d.function.function.cuts)) := by
  have hrun : ({} : Session S).run setup (before ++ [c] ++ between) =
      ((({} : Session S).run setup before).after setup c).run setup between := by
    simp only [run, List.foldl_append, List.foldl_cons, List.foldl_nil]
  rw [run_concat] at hidle
  rw [hrun] at hq
  have hcuts := (isSound_run setup before).cuts_handed hp hidle hfits hstage hid hq
  refine ⟨hcuts, ?_⟩
  intro hright
  rw [StageProgram.cutRows_eq_iff, hcuts]
  by_cases hfewer : d.function.function.size < c.function.function.size
  · simp only [hfewer, if_true, true_or]
  · rw [if_neg hfewer, or_iff_right hfewer, hright, List.prefix_iff_eq_append]
    rfl

end Session

namespace Stock

/-- Two cuts are replaced by one, and in between there is a call with a state of the wrong length.
The second solve has the row of the one cut that is left. -/
theorem cutRows_handed_fewer :
    let first := call 2 3 [⟨[1], 0⟩, ⟨[-1], 0⟩] .null
    let rejected : Call ℚ := { first with state := .list [] }
    let second := call 2 3 [⟨[2], 3⟩] .null
    ∃ q, (({} : Session ℚ).run rebuilding [first, rejected]).handed rebuilding second = some q ∧
      q.cutRows = [q.cutRow 0 ⟨[2], 3⟩] := by
  intro first rejected second
  obtain ⟨p, hp, hright⟩ : ∃ p, ({} : Session ℚ).handed rebuilding first = some p ∧
      p.cuts = first.function.function.cuts := ⟨_, rfl, rfl⟩
  obtain ⟨q, hq⟩ : ∃ q, (({} : Session ℚ).run rebuilding [first, rejected]).handed rebuilding
      second = some q := ⟨_, rfl⟩
  have hidle : (({} : Session ℚ).run rebuilding [first]).reached rebuilding [rejected] = [] := rfl
  have hstage : second.stage = first.stage := rfl
  have hid : second.function.id = first.function.id := rfl
  obtain ⟨-, hiff⟩ := Session.cutRows_handed_iff [] [rejected] hp
    (by rw [List.nil_append, hidle]; exact fun _ h => absurd h List.not_mem_nil) (by decide) hstage
    hid hq
  exact ⟨q, hq, (hiff hright).mpr (.inl (by decide))⟩

/-- One of two cuts is taken away, and another one is added. The second solve still has the row of
the first cut, and none of the other one. -/
theorem stale_cut_replaced :
    let first := call 2 3 [⟨[1], 0⟩, ⟨[-1], 0⟩] .null
    let second := call 2 3 [⟨[1], 0⟩, ⟨[2], 3⟩] .null
    ∃ q, (({} : Session ℚ).run rebuilding [first]).handed rebuilding second = some q ∧
      q.cutRows = [q.cutRow 0 ⟨[1], 0⟩, q.cutRow 1 ⟨[-1], 0⟩] ∧
      q.cutRows ≠ [q.cutRow 0 ⟨[1], 0⟩, q.cutRow 1 ⟨[2], 3⟩] :=
  ⟨_, rfl, rfl, by decide⟩

end Stock

end Bellman
