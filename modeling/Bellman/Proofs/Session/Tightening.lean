import Bellman.Proofs.Program.Tightening
import Bellman.Proofs.Session.Course

/-!
# Cuts only ever tighten a stage

A stage is solved again and again while cuts are added to its value function. As long as none are
taken away, the model of the stage has rows for the cuts that counted at the last call, in order and
no others, whatever else the session is asked. So a later call for the same state and noise hands
over the program of the earlier one with the rows of the new cuts.

The later program is tighter, and all that it asks beyond the earlier one is met by a higher future
cost. Whether it has feasible points at all is settled by the stage, the state and the noise.
-/

namespace Bellman

open Data

variable {S : Type}

/-- Whether a value function only grows from one of some calls to the next: it keeps its dimension,
and its cuts stay in their places. -/
def Call.Grow (id : Nat) (calls : List (Call S)) : Prop :=
  calls.Pairwise fun c d => c.function.id = id → d.function.id = id →
    c.function.function.dim = d.function.function.dim ∧
      c.function.function.cuts <+: d.function.function.cuts

namespace Session

/-- Whether the models that were built against a value function have rows for its first cuts, in
order and no others, and all of them count. -/
def Mirrors (s : Session S) (f : NamedFunction S) : Prop :=
  ∀ stage m, s.model? stage = some m → m.functionId = f.id →
    m.program.cuts <+: f.function.cuts ∧ m.synced = m.program.cuts.length

variable {s : Session S} {f g : NamedFunction S} {c d : Call S}

theorem Mirrors.grow (h : s.Mirrors f) (hid : f.id = g.id)
    (hcuts : f.function.cuts <+: g.function.cuts) : s.Mirrors g := by
  intro stage m hm hfunction
  obtain ⟨hfirst, hsynced⟩ := h stage m hm (hfunction.trans hid.symm)
  exact ⟨hfirst.trans hcuts, hsynced⟩

/-- A call that finds the first cuts of its value function adds the others. -/
theorem Mirrors.rowsFor_eq (h : s.Mirrors c.function) :
    s.rowsFor c = c.function.function.cuts := by
  rcases s.serves_or_not c.stage c.function with ⟨m, hm, hserves⟩ | hserves
  · rw [rowsFor_of_serves hm hserves]
    simp only [StageModel.serves, Bool.and_eq_true, decide_eq_true_eq] at hserves
    obtain ⟨⟨more, hmore⟩, hsynced⟩ := h c.stage m hm hserves.1
    rw [StageModel.newCuts, hsynced, ← hmore, List.drop_left]
  · exact rowsFor_of_not_serves hserves

section Runs

variable [Scalar S] [Zero S] [One S] [Neg S] [Add S] [Sub S] [Mul S]
variable [LE S] [DecidableLE S] [LT S] [DecidableLT S] {setup : Setup S}

/-- Whether a call asks for the stage, the state and the noise that another one asks for. -/
structure Repeats (setup : Setup S) (c d : Call S) : Prop where
  stage : d.stage = c.stage
  request : readRequest setup d.stage d.state d.noise d.index =
    readRequest setup c.stage c.state c.noise c.index

/-- A call of a value function whose cuts all fit leaves its models with rows for all of them, or as
they were. -/
theorem Mirrors.after (h : s.Mirrors c.function) (hsound : s.IsSound setup)
    (hfits : ∀ cut ∈ c.function.function.cuts,
      (Value.num setup.problem.states).isCount cut.dim = true) :
    (s.after setup c).Mirrors c.function := by
  intro stage m' hm' hid
  rcases hsound.cases_after c with
    ⟨q, hsyncs⟩ | ⟨-, -, hmodels⟩ | ⟨r, m, -, hmodel, -, hstops⟩
  · obtain ⟨m, hmodels, -, hsynced, hcuts⟩ := hsyncs.model
    rw [hmodels] at hm'
    split at hm'
    · obtain rfl := Option.some.inj hm'
      rw [hcuts, h.rowsFor_eq]
      exact ⟨List.prefix_rfl, hsynced⟩
    · exact h stage m' hm' hid
  · rw [model?, hmodels] at hm'
    exact h stage m' hm' hid
  · obtain ⟨cut, hcut, hdim, -⟩ := hstops.misfit
    have hcount := hfits cut (List.mem_of_mem_drop hcut)
    exact absurd (Number.eq_of_isCount (hsound c.stage m hmodel).toCount_states hcount) hdim

/-- A call of another value function leaves no other models of a value function than there were. -/
theorem Mirrors.after_of_ne (h : s.Mirrors f) (hsound : s.IsSound setup)
    (hne : c.function.id ≠ f.id) : (s.after setup c).Mirrors f := by
  intro stage m' hm' hid
  rcases hsound.cases_after c with
    ⟨q, hsyncs⟩ | ⟨-, -, hmodels⟩ | ⟨r, m, -, -, hserves, hstops⟩
  · obtain ⟨m, hmodels, hfunction, -⟩ := hsyncs.model
    rw [hmodels] at hm'
    split at hm'
    · obtain rfl := Option.some.inj hm'
      exact absurd (hfunction.symm.trans hid) hne
    · exact h stage m' hm' hid
  · rw [model?, hmodels] at hm'
    exact h stage m' hm' hid
  · rw [hstops.model] at hm'
    split at hm'
    · obtain rfl := Option.some.inj hm'
      simp only [StageModel.serves, Bool.and_eq_true, decide_eq_true_eq] at hserves
      exact absurd (hserves.1.symm.trans hid) hne
    · exact h stage m' hm' hid

/-- After a run in which a value function only grows, the next call finds its first cuts. -/
theorem mirrors_run {calls : List (Call S)} (hgrow : Call.Grow c.function.id (calls ++ [c]))
    (hfits : ∀ cut ∈ c.function.function.cuts,
      (Value.num setup.problem.states).isCount cut.dim = true) :
    (({} : Session S).run setup calls).Mirrors c.function := by
  induction calls using List.reverseRecOn generalizing c with
  | nil =>
      intro stage m hm
      cases hm
  | append_singleton calls b ih =>
      have hsound := isSound_run setup calls
      rw [run_concat]
      by_cases hid : b.function.id = c.function.id
      · obtain ⟨hearlier, -, hlast⟩ := List.pairwise_append.mp hgrow
        obtain ⟨-, hcuts⟩ := hlast b (by simp) c List.mem_cons_self hid rfl
        have hfits' : ∀ cut ∈ b.function.function.cuts,
            (Value.num setup.problem.states).isCount cut.dim = true :=
          fun cut hcut => hfits cut (hcuts.subset hcut)
        exact ((ih (hid ▸ hearlier) hfits').after hsound hfits').grow hid hcuts
      · have hsub : (calls ++ [c]).Sublist (calls ++ [b] ++ [c]) :=
          (List.sublist_append_left calls [b]).append (List.Sublist.refl [c])
        exact (ih (hgrow.sublist hsub) hfits).after_of_ne hsound hid

/-- A call that can be served hands over the rows of its cuts if its value function has only grown.
-/
theorem exists_handed_run {calls : List (Call S)} (hservable : Servable setup c)
    (hgrow : Call.Grow c.function.id (calls ++ [c]))
    (hfits : ∀ cut ∈ c.function.function.cuts,
      (Value.num setup.problem.states).isCount cut.dim = true) :
    ∃ q, (({} : Session S).run setup calls).handed setup c = some q ∧
      q.cuts = c.function.function.cuts := by
  obtain ⟨q, hsyncs⟩ := (isSound_run setup calls).exists_hands hservable
  exact ⟨q, hsyncs.handed_eq, (hsyncs.cuts q rfl).trans (mirrors_run hgrow hfits).rowsFor_eq⟩

omit [One S] [Add S] [Mul S] in
/-- A call that repeats one that can be served can be served, too, if its cuts fit. -/
theorem Servable.repeats (h : Servable setup c) (hrepeats : Repeats setup c d)
    (hdim : c.function.function.dim = d.function.function.dim)
    (hfits : ∀ cut ∈ d.function.function.cuts,
      (Value.num setup.problem.states).isCount cut.dim = true) : Servable setup d := by
  obtain ⟨⟨⟨r, hread⟩, ⟨⟨model, p⟩, hbuild⟩, hbackend⟩, hindexed⟩ := h
  obtain ⟨parts, -, -⟩ := StageProgram.build_eq_ok_iff.mp hbuild
  rw [← hrepeats.stage, hdim] at parts
  refine ⟨⟨⟨r, hrepeats.request.trans hread⟩, ⟨_, build_of_fits parts hfits⟩, hbackend⟩, ?_⟩
  exact fun r hr => hindexed r (hrepeats.request.symm.trans hr)

/-- What a call hands over is targeted to its request. -/
theorem IsSound.isAimed_of_handed (h : s.IsSound setup) {q : StageProgram S} {r : Request S}
    (hq : s.handed setup c = some q)
    (hread : readRequest setup c.stage c.state c.noise c.index = .ok r) :
    q.IsAimed setup c.stage r := by
  obtain ⟨r', m, hputs, rfl⟩ := h.puts_of_handed hq
  obtain rfl := Except.ok.inj (hputs.read.symm.trans hread)
  exact hputs.aimed

end Runs

end Session

namespace StageProgram

section Targets

variable [Scalar S] [Zero S] [Neg S] {setup : Setup S} {stage : Int} {r : Request S}
variable {q q' : StageProgram S}

/-- Programs of one stage that are targeted to the same request differ in their cuts alone. -/
theorem IsAimed.eq_withCuts (h : q.IsAimed setup stage r) (h' : q'.IsAimed setup stage r) :
    q' = q.withCuts q'.cuts := by
  obtain ⟨_, _, parts, cuts, hq⟩ := h
  obtain ⟨_, _, parts', cuts', hq'⟩ := h'
  rw [parts.program_eq_withCuts parts' cuts cuts', aimed_withCuts hq] at hq'
  obtain rfl := Except.ok.inj hq'
  rfl

theorem IsAimed.ignores_exprs (h : q.IsAimed setup stage r) (haffine : setup.problem.IsAffine) :
    ∀ e ∈ q.body.exprs, e.Ignores .future := by
  obtain ⟨_, _, parts, cuts, hq⟩ := h
  rw [exprs_of_aimed hq]
  intro e he
  exact (parts.isScoped_exprs haffine e he).ignores id

end Targets

end StageProgram

variable [Scalar S] [CommRing S] [LinearOrder S] [IsStrictOrderedRing S]
variable {setup : Setup S} {c d : Call S}

namespace Session

/-- Cuts only tighten a stage. If a stage is solved for the same state and noise at two times of a
run, and the value function has only grown in between and before, then both calls hand over a
program, and the later program is the earlier one with the rows of the new cuts. What is feasible
for the later one is feasible for the earlier one with the same objective, what is feasible for the
earlier one becomes so for the later one when the future cost is raised, and the least objective
does not go down. Whether there are feasible points does not depend on the cuts at all: it is the
same for whatever is handed over for this stage, state and noise, in this session or another one. -/
theorem tightens_run {before between : List (Call S)} (haffine : setup.problem.IsAffine)
    (hservable : Servable setup c) (hrepeats : Repeats setup c d)
    (hid : d.function.id = c.function.id)
    (hgrow : Call.Grow c.function.id (before ++ [c] ++ between ++ [d]))
    (hfits : ∀ cut ∈ d.function.function.cuts,
      (Value.num setup.problem.states).isCount cut.dim = true) :
    ∃ q q' more, (({} : Session S).run setup before).handed setup c = some q ∧
      (({} : Session S).run setup (before ++ [c] ++ between)).handed setup d = some q' ∧
      q.cuts = c.function.function.cuts ∧ d.function.function.cuts = q.cuts ++ more ∧
      q' = q.withCuts (q.cuts ++ more) ∧
      StageProgram.Tightens StageProgram.IsFeasible q q' ∧
      (∀ limit, StageProgram.Tightens (StageProgram.IsFeasibleFor limit) q q') ∧
      ∀ elsewhere e p, Repeats setup c e →
        (({} : Session S).run setup elsewhere).handed setup e = some p →
        ((∃ point, p.IsFeasible point) ↔ ∃ point, q.IsFeasible point) ∧
        ∀ limit, (∃ point, p.IsFeasibleFor limit point) ↔ ∃ point, q.IsFeasibleFor limit point := by
  obtain ⟨r, hread⟩ := hservable.read
  obtain ⟨hearlier, -, hlast⟩ := List.pairwise_append.mp hgrow
  obtain ⟨hdim, more, hmore⟩ := hlast c (by simp) d List.mem_cons_self rfl hid
  have hfits' : ∀ cut ∈ c.function.function.cuts,
      (Value.num setup.problem.states).isCount cut.dim = true := by
    intro cut hcut
    apply hfits cut
    rw [← hmore]
    exact List.mem_append_left more hcut
  obtain ⟨q, hq, hcuts⟩ := exists_handed_run hservable
    (hearlier.sublist (List.sublist_append_left _ between)) hfits'
  obtain ⟨q', hq', hcuts'⟩ := exists_handed_run (hservable.repeats hrepeats hdim hfits)
    (hid.symm ▸ hgrow) hfits
  have haimed := (isSound_run setup before).isAimed_of_handed hq hread
  have hsame : ∀ elsewhere e p, Repeats setup c e →
      (({} : Session S).run setup elsewhere).handed setup e = some p → p = q.withCuts p.cuts := by
    intro elsewhere e p hrepeats hp
    have hp' := (isSound_run setup elsewhere).isAimed_of_handed hp (hrepeats.request.trans hread)
    exact haimed.eq_withCuts (hrepeats.stage ▸ hp')
  have hignores := haimed.ignores_exprs haffine
  have hall : q'.cuts = q.cuts ++ more := by
    rw [hcuts', hcuts, hmore]
  have hwith : q' = q.withCuts (q.cuts ++ more) := hall ▸ hsame _ d q' hrepeats hq'
  refine ⟨q, q', more, hq, hq', hcuts, by rw [hcuts, hmore], hwith, ?_, ?_, ?_⟩
  · rw [hwith]
    exact StageProgram.tightens_withCuts Row.isReading_id hignores more
  · intro limit
    rw [hwith]
    exact StageProgram.tightens_withCuts (Row.isReading_asRead limit) hignores more
  · intro elsewhere e p hrepeats hp
    rw [hsame elsewhere e p hrepeats hp]
    exact ⟨StageProgram.exists_feasible_withCuts_iff Row.isReading_id hignores p.cuts,
      fun limit =>
        StageProgram.exists_feasible_withCuts_iff (Row.isReading_asRead limit) hignores p.cuts⟩

end Session

namespace Stock

/-- The stock with slots and two costs, and a backend that always fails. -/
def slotted : Setup ℚ :=
  ⟨problem .piecewiseLinear, params .slotReuse, { reply _ _ := .failed .noLaws }⟩

/-- A stock of two meets a demand of three, before and after there is a new cut. In between, the
stage is solved against another value function, from which a cut was taken away. -/
theorem tightens_newCut :
    let other : Call ℚ := { call 4 1 [] .null with function := ⟨1, .int 1, [⟨[1], 0⟩]⟩ }
    let fewer : Call ℚ := { other with function := ⟨1, .int 1, []⟩ }
    let first := call 2 3 [⟨[-1], 5⟩] .null
    let second := call 2 3 [⟨[-1], 5⟩, ⟨[-2], 6⟩] (.int 1)
    ∃ q q', (({} : Session ℚ).run slotted [other]).handed slotted first = some q ∧
      (({} : Session ℚ).run slotted [other, first, fewer]).handed slotted second = some q' ∧
      q' = q.withCuts [⟨[-1], 5⟩, ⟨[-2], 6⟩] ∧
      StageProgram.Tightens StageProgram.IsFeasible q q' ∧
      StageProgram.Tightens (StageProgram.IsFeasibleFor (10 ^ 20)) q q' := by
  intro other fewer first second
  have hread : Session.readRequest slotted first.stage first.state first.noise first.index =
      .ok ⟨[2], [3], some (.whole 1)⟩ := by with_unfolding_all rfl
  have hservable : Session.Servable slotted first := by
    refine ⟨⟨⟨_, hread⟩, ⟨_, rfl⟩, rfl⟩, fun r hr => ?_⟩
    obtain rfl := Except.ok.inj (hread.symm.trans hr)
    rintro _ ⟨⟩
    exact Option.some_ne_none _
  have hrepeats : Session.Repeats slotted first second := ⟨rfl, by with_unfolding_all rfl⟩
  have hgrow : Call.Grow first.function.id ([other] ++ [first] ++ [fewer] ++ [second]) := by
    simp [Call.Grow, other, fewer, first, second, call]
  obtain ⟨q, q', more, hq, hq', -, hmore, hwith, htightens, hlimit, -⟩ :=
    Session.tightens_run (isAffine_problem .piecewiseLinear) hservable hrepeats rfl hgrow
      (by decide)
  refine ⟨q, q', hq, hq', ?_, htightens, hlimit (10 ^ 20)⟩
  rw [hwith, ← hmore]
  rfl

end Stock

end Bellman
