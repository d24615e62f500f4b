import Bellman.Program.Build
import Bellman.Proofs.Problem

/-!
# What a built program consists of

A build succeeds exactly when its parts can be read off the problem and the parameters and every cut
fits, and then the program is put together from these parts. The parts do not depend on the cuts, so
two builds of one stage differ in their cut rows alone.
-/

namespace Bellman

open Data

variable {S : Type} [Scalar S] [Zero S] [Neg S]

/-- The body of a stage in the mode that the parameters ask for. -/
def Body.buildFor (problem : Problem S) (params : Parameters) (stage : Int) (noises : Nat)
    (infinity : S) (model : CostModel) (pieces : List (StageCost S)) : Except Fault (Body S) :=
  match params.updateMode with
  | .rebuild => buildDirect problem stage noises model pieces
  | .slotReuse => buildSlotted problem stage infinity pieces

namespace StageProgram

/-- All that a build finds out before it comes to the cuts of a value function, of which only the
dimension matters until then. -/
structure Parts (problem : Problem S) (params : Parameters) (stage : Int) (dim : Value)
    (model : CostModel) where
  pieces : List (StageCost S)
  infinity : S
  states : Nat
  controls : Nat
  noises : Nat
  futureLower : S
  body : Body S
  costPieces_eq : problem.costPieces = .ok (model, pieces)
  infinity_eq : Scalar.read (.num params.infinity) = .ok infinity
  dim_eq : dim.sameKey (.num problem.states) = true
  states_eq : problem.states.toCount = .ok states
  controls_eq : problem.controls.toCount = .ok controls
  noises_eq : problem.noises.toCount = .ok noises
  futureLower_eq : Scalar.read params.alphaLowerBound = .ok futureLower
  body_eq : Body.buildFor problem params stage noises infinity model pieces = .ok body

variable {problem : Problem S} {params : Parameters} {stage : Int} {dim : Value}
variable {model : CostModel}

/-- A program with the rows of some cuts, whose targets are all open. -/
def untargeted (problem : Problem S) (params : Parameters) (stage : Int) (infinity : S)
    (states noises : Nat) (futureLower : S) (body : Body S) (cuts : List (Cut S)) :
    StageProgram S where
  stage
  stateBounds := problem.stateBounds
  controlBounds := problem.controlBounds
  futureLower
  infinity
  cutVariable := params.cutVariable
  stateSides := List.replicate states (-infinity, infinity)
  noise := List.replicate noises 0
  body
  cuts
  live := none

/-- The program that is put together from its parts, with the rows of some cuts. -/
def Parts.program (parts : Parts problem params stage dim model) (cuts : List (Cut S)) :
    StageProgram S :=
  untargeted problem params stage parts.infinity parts.states parts.noises parts.futureLower
    parts.body cuts

omit [Zero S] in
theorem Parts.hasShape (parts : Parts problem params stage dim model) :
    problem.HasShape ⟨parts.states, parts.controls⟩ :=
  ⟨parts.states_eq, parts.controls_eq⟩

@[simp] theorem Parts.dimStates_program (parts : Parts problem params stage dim model)
    (cuts : List (Cut S)) : (parts.program cuts).dimStates = parts.states :=
  List.length_replicate

omit [Scalar S] [Zero S] [Neg S] in
theorem addCut_eq_ok_iff {p q : StageProgram S} {c : Cut S} :
    p.addCut c = .ok q ↔ c.dim = p.dimStates ∧ q = { p with cuts := p.cuts ++ [c] } := by
  unfold addCut
  split
  · next h => simp only [Except.ok.injEq, h, true_and, eq_comm]
  · next h => simp only [reduceCtorEq, h, false_and]

omit [Scalar S] [Zero S] [Neg S] in
/-- Cuts are added one by one up to the first that does not fit, so all are added or none counts. -/
theorem foldlM_addCut_eq_ok_iff {p q : StageProgram S} {cuts : List (Cut S)} :
    cuts.foldlM addCut p = .ok q ↔
      (∀ c ∈ cuts, c.dim = p.dimStates) ∧ q = { p with cuts := p.cuts ++ cuts } := by
  induction cuts generalizing p with
  | nil =>
      simp only [List.foldlM_nil, pure_eq_ok, List.append_nil, List.not_mem_nil, false_implies,
        implies_true, true_and]
      exact eq_comm
  | cons c cuts ih =>
      simp only [List.foldlM_cons, bind_eq_ok, addCut_eq_ok_iff, List.forall_mem_cons]
      constructor
      · rintro ⟨_, ⟨hc, rfl⟩, h⟩
        obtain ⟨hcuts, rfl⟩ := ih.mp h
        refine ⟨⟨hc, hcuts⟩, ?_⟩
        simp only [List.append_assoc, List.singleton_append]
      · rintro ⟨⟨hc, hcuts⟩, rfl⟩
        refine ⟨_, ⟨hc, rfl⟩, ih.mpr ⟨hcuts, ?_⟩⟩
        simp only [List.append_assoc, List.singleton_append]

/-- Once the parts are known, a build is left with the body and the cuts. -/
theorem build_eq_of_parts {v : ValueFunction S} {pieces : List (StageCost S)} {infinity : S}
    {states controls noises : Nat} {futureLower : S}
    (hpieces : problem.costPieces = .ok (model, pieces))
    (hinfinity : Scalar.read (.num params.infinity) = .ok infinity)
    (hdim : v.dim.sameKey (.num problem.states) = true)
    (hstates : problem.states.toCount = .ok states)
    (hcontrols : problem.controls.toCount = .ok controls)
    (hnoises : problem.noises.toCount = .ok noises)
    (hlower : Scalar.read params.alphaLowerBound = .ok futureLower) :
    build problem params stage v =
      (Body.buildFor problem params stage noises infinity model pieces >>= fun body =>
        v.cuts.foldlM addCut
          (untargeted problem params stage infinity states noises futureLower body []) >>=
          fun p => pure (model, p)) := by
  unfold build Body.buildFor
  simp only [hpieces, hinfinity, hdim, hstates, hcontrols, hnoises, hlower, Bool.not_true,
    Bool.false_eq_true, if_false]
  cases params.updateMode <;> rfl

/-- A build in full: the parts it needs, the cuts it accepts, and the program it gives. -/
theorem build_eq_ok_iff {v : ValueFunction S} {p : StageProgram S} :
    build problem params stage v = .ok (model, p) ↔
      ∃ parts : Parts problem params stage v.dim model,
        (∀ c ∈ v.cuts, c.dim = parts.states) ∧ p = parts.program v.cuts := by
  constructor
  · intro h
    have steps := h
    simp only [build, bind_eq_ok] at steps
    obtain ⟨⟨model', pieces⟩, hpieces, infinity, hinfinity, steps⟩ := steps
    by_cases hdim : v.dim.sameKey (.num problem.states)
    · simp only [hdim, Bool.not_true, Bool.false_eq_true, if_false, bind_eq_ok] at steps
      obtain ⟨states, hstates, controls, hcontrols, noises, hnoises, lower, hlower, -⟩ := steps
      rw [build_eq_of_parts hpieces hinfinity hdim hstates hcontrols hnoises hlower] at h
      simp only [bind_eq_ok, pure_eq_ok] at h
      obtain ⟨body, hbody, q, hcuts, ⟨⟩⟩ := h
      obtain ⟨fits, rfl⟩ := foldlM_addCut_eq_ok_iff.mp hcuts
      refine ⟨⟨pieces, infinity, states, controls, noises, lower, body, hpieces, hinfinity, hdim,
        hstates, hcontrols, hnoises, hlower, hbody⟩, ?_, rfl⟩
      intro c hc
      exact (fits c hc).trans List.length_replicate
    · simp only [hdim] at steps
      cases steps
  · rintro ⟨parts, fits, rfl⟩
    rw [build_eq_of_parts parts.costPieces_eq parts.infinity_eq parts.dim_eq parts.states_eq
      parts.controls_eq parts.noises_eq parts.futureLower_eq]
    simp only [bind_eq_ok, pure_eq_ok]
    refine ⟨parts.body, parts.body_eq, _, foldlM_addCut_eq_ok_iff.mpr ⟨?_, rfl⟩, rfl⟩
    intro c hc
    exact (fits c hc).trans List.length_replicate.symm

end StageProgram

end Bellman
