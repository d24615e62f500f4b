import Bellman.Proofs.Session.CutRows

/-!
# The course of a call

A call to a session can go in six ways: it cannot be read, its stage cannot be built, the backend
cannot be set up, a cut does not fit the model of the stage, the index that was given is found out
at the model, or the model is put to the backend. `IsSound.course` tells for each of them what the
session is left with and what the outcome is. In particular nothing but the kind of the index can go
wrong between a model that is built and the backend.
-/

namespace Bellman

open Data

variable {S : Type}

namespace Session

theorem setModel_of_lookup {stage : Int} {m : StageModel S} {models : List (Int × StageModel S)}
    (h : models.lookup stage = some m) : setModel stage m models = models := by
  induction models with
  | nil => cases h
  | cons head rest ih =>
      obtain ⟨t, n⟩ := head
      by_cases ht : t = stage
      · subst ht
        rw [List.lookup_cons_self] at h
        obtain rfl := Option.some.inj h
        exact if_pos rfl
      · have hne : (stage == t) = false := beq_eq_false_iff_ne.mpr (Ne.symm ht)
        rw [List.lookup_cons, hne] at h
        rw [setModel, if_neg ht, ih h]

/-- Putting back the model that a stage has changes nothing. -/
theorem put_of_model? {s : Session S} {stage : Int} {m : StageModel S}
    (h : s.model? stage = some m) : s.put stage m = s := by
  rw [put, setModel_of_lookup h]

@[simp] theorem record_nil (s : Session S) : s.record [] = s := by
  rw [record, List.append_nil]

end Session

variable [Scalar S] [Zero S] [One S] [Neg S] [Add S] [Sub S] [Mul S]
variable [LE S] [DecidableLE S] [LT S] [DecidableLT S]
variable {setup : Setup S} {s : Session S} {c : Call S} {r : Request S} {m : StageModel S}

namespace Session

/-- What comes of a call: the session after it, and an outcome or a fault. -/
abbrev result (setup : Setup S) (s : Session S) (c : Call S) :
    Session S × Except Fault (Outcome S) :=
  s.solve setup c.stage c.state c.noise c.function c.index

/-- The reply of the backend to a model that is put to it. -/
def replyTo (setup : Setup S) (s : Session S) (m : StageModel S) : Reply S :=
  setup.backend.reply s.asked m.program

/-- What a call finds of the past: a model that serves its value function, or else one is built, and
nothing has been answered or stored for it. -/
inductive Inherits (setup : Setup S) (s : Session S) (c : Call S) (m : StageModel S) : Prop
  | found (m₀ : StageModel S) (model : s.model? c.stage = some m₀)
      (serves : m₀.serves c.function = true) (answers : m.answers = m₀.answers)
      (stored : m.stored = m₀.stored) (builds : (s.after setup c).builds = s.builds)
  | built (unserved : ∀ m₀, s.model? c.stage = some m₀ → m₀.serves c.function = false)
      (answers : m.answers = 0) (stored : m.stored = {})
      (builds : (s.after setup c).builds = s.builds + 1)

/-- A call that puts a model to the backend: the model has been targeted to the request, the outcome
is what it concludes from the reply, and the session keeps it with its slot released. -/
structure Puts (setup : Setup S) (s : Session S) (c : Call S) (r : Request S) (m : StageModel S) :
    Prop extends Asks setup s c.stage r (s.result setup c) m where
  read : readRequest setup c.stage c.state c.noise c.index = .ok r
  phase : m.phase = .solving
  model : ∀ t, (s.after setup c).model? t =
    if t = c.stage then
      some ((m.receive setup.params.solver.display r (s.replyTo setup m)).1.release r).1
    else s.model? t
  past : Inherits setup s c m

/-- A call that is found out at its model, because a floating number was given for an index. By then
the model has rows for all cuts of the value function, and holds the state of the request. -/
structure Mislays (setup : Setup S) (s : Session S) (c : Call S) (r : Request S)
    (m : StageModel S) : Prop where
  read : readRequest setup c.stage c.state c.noise c.index = .ok r
  indexed : ¬ r.IsIndexed
  outcome : (s.result setup c).2 = .error (.notAnIndex "float")
  syncs : s.Syncs setup c none
  model : ∀ t, (s.after setup c).model? t = if t = c.stage then some m else s.model? t
  state : m.program.stateSides = r.state.map fun x => (x, x)
  past : Inherits setup s c m
  phase : (s.after setup c).builds = s.builds →
    (s.model? c.stage).map StageModel.phase = some m.phase
  ready : (s.after setup c).builds ≠ s.builds → m.phase = .ready

/-- All ways in which a call can go. -/
inductive Course (setup : Setup S) (s : Session S) (c : Call S) : Prop
  | unread (e : Fault) (read : readRequest setup c.stage c.state c.noise c.index = .error e)
      (result : s.result setup c = (s, .error e)) (unreached : s.reaches setup c = false)
  | unbuilt (e : Fault)
      (build : StageProgram.build setup.problem setup.params c.stage c.function.function = .error e)
      (result : s.result setup c = (s, .error e)) (unreached : s.reaches setup c = false)
  | refused (e : Fault) (model : CostModel) (refusal : setup.backend.refusal = some e)
      (result : s.result setup c = (s.counted setup c.stage model c.function, .error e))
      (unreached : s.reaches setup c = false)
  | stopped (m : StageModel S) (model : s.model? c.stage = some m)
      (serves : m.serves c.function = true) (cut : Cut S)
      (mem : cut ∈ m.newCuts c.function.function) (misfit : cut.dim ≠ m.program.dimStates)
      (result : s.result setup c = (s.put c.stage (m.stuck c.function.function),
        .error (.dimension "cut lambdas" (.int m.program.dimStates) (.int cut.dim))))
      (unreached : s.reaches setup c = false)
  | mislaid (r : Request S) (m : StageModel S) (mislays : s.Mislays setup c r m)
  | put (r : Request S) (m : StageModel S) (puts : s.Puts setup c r m)

section Reached

variable {s' : Session S} {m₀ : StageModel S}

/-- A call that is read, finds or builds a model, and can be aimed puts the model to the backend. -/
theorem puts_of_found {q : StageProgram S}
    (hread : readRequest setup c.stage c.state c.noise c.index = .ok r)
    (hstage : s.stageModel setup c.stage c.function = (s', .ok m₀))
    (hcuts : ∀ cut ∈ c.function.function.cuts.drop m₀.synced, cut.dim = m₀.program.dimStates)
    (hq : (m₀.upToDate c.function.function).program.aimed r = .ok q)
    (haimed : q.IsAimed setup c.stage r) (hasked : s'.asked = s.asked)
    (hmodels : ∀ t, t ≠ c.stage → s'.model? t = s.model? t)
    (hpast : ∀ m : StageModel S, m.answers = m₀.answers → m.stored = m₀.stored →
      (s.after setup c).builds = s'.builds → Inherits setup s c m) :
    ∃ m, s.Puts setup c r m := by
  obtain ⟨before, hsolve⟩ := solve_of_found hread hstage hcuts hq
  obtain ⟨notes, hask⟩ := fst_ask setup (s'.record before) c.stage
    { m₀.upToDate c.function.function with program := q } r
  have hresult : (s.result setup c).1 = _ := (congrArg Prod.fst hsolve).trans hask
  refine ⟨{ m₀.upToDate c.function.function with program := q, phase := .solving },
    ⟨haimed, ?_, ?_⟩, hread, rfl, ?_, hpast _ rfl rfl ?_⟩
  · rw [hresult, ← hasked]
    rfl
  · rw [← hasked]
    exact congrArg Prod.snd hsolve
  · intro t
    rw [after, hresult, model?_record, model?_put, replyTo, ← hasked]
    split
    · rfl
    · next ht => exact hmodels t ht
  · rw [after, hresult]
    rfl

/-- A call that is read and finds or builds a model, but has no index by its kind, is found out
there. -/
theorem mislays_of_found (hread : readRequest setup c.stage c.state c.noise c.index = .ok r)
    (hindexed : ¬ r.IsIndexed)
    (hstage : s.stageModel setup c.stage c.function = (s', .ok m₀))
    (hcuts : ∀ cut ∈ c.function.function.cuts.drop m₀.synced, cut.dim = m₀.program.dimStates)
    (hq : (m₀.upToDate c.function.function).program.aimed r = .error (.notAnIndex "float"))
    (hsyncs : s.Syncs setup c none) (hmodels : ∀ t, t ≠ c.stage → s'.model? t = s.model? t)
    (hpast : ∀ m : StageModel S, m.answers = m₀.answers → m.stored = m₀.stored →
      (s.after setup c).builds = s'.builds → Inherits setup s c m)
    (hphase : s'.builds = s.builds ∧ s.model? c.stage = some m₀ ∨
      s'.builds ≠ s.builds ∧ m₀.phase = .ready) :
    ∃ m, s.Mislays setup c r m := by
  obtain ⟨notes, hsolve⟩ := solve_of_error hread hstage hcuts hq
  have hafter : s.after setup c = _ := congrArg Prod.fst hsolve
  have hbuilds : (s.after setup c).builds = s'.builds := by
    rw [hafter]
    rfl
  refine ⟨{ m₀.upToDate c.function.function with
      program := (m₀.upToDate c.function.function).program.setState r.state },
    hread, hindexed, congrArg Prod.snd hsolve, hsyncs, ?_, rfl, hpast _ rfl rfl hbuilds, ?_, ?_⟩
  · intro t
    rw [hafter, model?_record, model?_put]
    split
    · rfl
    · next ht => exact hmodels t ht
  · rw [hbuilds]
    rcases hphase with ⟨-, hmodel⟩ | ⟨hbuilt, -⟩
    · rw [hmodel]
      exact fun _ => rfl
    · exact fun h => absurd h hbuilt
  · rw [hbuilds]
    rcases hphase with ⟨hfound, -⟩ | ⟨-, hready⟩
    · exact fun h => absurd hfound h
    · exact fun _ => hready

end Reached

/-- A call that finds a model whose new cuts all fit puts it to the backend, or has no index. -/
theorem IsSound.course_of_serves (h : s.IsSound setup)
    (hread : readRequest setup c.stage c.state c.noise c.index = .ok r)
    (hmodel : s.model? c.stage = some m) (hserves : m.serves c.function = true)
    (hfits : ∀ cut ∈ m.newCuts c.function.function, cut.dim = m.program.dimStates) :
    (∃ m', s.Puts setup c r m') ∨ ∃ m', s.Mislays setup c r m' := by
  have hextended := (h c.stage m hmodel).appendCuts (m.newCuts c.function.function)
  have hr := fits_of_readRequest hread
  have hstage : s.stageModel setup c.stage c.function = (s, .ok m) :=
    stageModel_of_serves hmodel hserves
  by_cases hindexed : r.IsIndexed
  · obtain ⟨q, hq⟩ := hextended.exists_aimed hr hindexed
    exact .inl (puts_of_found hread hstage hfits hq (hextended.isAimed hq) rfl (fun _ _ => rfl)
      (fun m' => .found (m := m') m hmodel hserves))
  · have hq := hextended.aimed_of_not_isIndexed hr hindexed
    have hsyncs := (reaches_of_serves hread hmodel hserves hfits).syncs hread hextended
      (rowsFor_of_serves hmodel hserves).symm
    rw [StageModel.upToDate, ← StageModel.newCuts, hq] at hsyncs
    exact .inr (mislays_of_found hread hindexed hstage hfits hq hsyncs (fun _ _ => rfl)
      (fun m' => .found (m := m') m hmodel hserves) (.inl ⟨rfl, hmodel⟩))

/-- A call that finds a model whose new cuts all fit puts it to the backend, if its index is one. -/
theorem IsSound.puts_of_serves (h : s.IsSound setup)
    (hread : readRequest setup c.stage c.state c.noise c.index = .ok r) (hindexed : r.IsIndexed)
    (hmodel : s.model? c.stage = some m) (hserves : m.serves c.function = true)
    (hfits : ∀ cut ∈ m.newCuts c.function.function, cut.dim = m.program.dimStates) :
    ∃ m', s.Puts setup c r m' := by
  rcases h.course_of_serves hread hmodel hserves hfits with hputs | ⟨m', hmislays⟩
  · exact hputs
  · exact absurd hindexed hmislays.indexed

/-- A call for which a model is built puts it to the backend, or has no index. -/
theorem course_of_built {model : CostModel} {base : StageProgram S}
    (hread : readRequest setup c.stage c.state c.noise c.index = .ok r)
    (hunserved : ∀ m, s.model? c.stage = some m → m.serves c.function = false)
    (hbuild : StageProgram.build setup.problem setup.params c.stage c.function.function =
      .ok (model, base))
    (hstage : s.stageModel setup c.stage c.function =
      ((s.counted setup c.stage model c.function).put c.stage (.fresh base c.function),
        .ok (.fresh base c.function))) :
    (∃ m, s.Puts setup c r m) ∨ ∃ m, s.Mislays setup c r m := by
  have hr := fits_of_readRequest hread
  have hbase := StageProgram.IsFor.of_build hbuild
  -- A model that was just built has all the cuts of its value function.
  have hdrop : c.function.function.cuts.drop c.function.function.size = [] :=
    List.drop_eq_nil_of_le (Nat.le_refl _)
  have hfits : ∀ cut ∈ c.function.function.cuts.drop (StageModel.fresh base c.function).synced,
      cut.dim = (StageModel.fresh base c.function).program.dimStates := by
    simp only [StageModel.fresh, hdrop, List.not_mem_nil, false_implies, implies_true]
  have hprogram : ((StageModel.fresh base c.function).upToDate c.function.function).program =
      base := by
    simp only [StageModel.upToDate, StageModel.fresh, hdrop, List.append_nil]
  have hmodels : ∀ t, t ≠ c.stage →
      ((s.counted setup c.stage model c.function).put c.stage
        (.fresh base c.function)).model? t = s.model? t := by
    intro t ht
    rw [model?_put, if_neg ht]
    rfl
  by_cases hindexed : r.IsIndexed
  · obtain ⟨q, hq⟩ := hbase.exists_aimed hr hindexed
    refine .inl (puts_of_found hread hstage hfits ?_ (hbase.isAimed hq) rfl hmodels
      (fun m' => .built (m := m') hunserved))
    rw [hprogram, hq]
  · have hq := hbase.aimed_of_not_isIndexed hr hindexed
    obtain ⟨parts, -, rfl⟩ := StageProgram.build_eq_ok_iff.mp hbuild
    have hsyncs := (reaches_of_built hread hstage).syncs hread hbase
      (rowsFor_of_not_serves hunserved).symm
    rw [hq] at hsyncs
    refine .inr (mislays_of_found hread hindexed hstage hfits ?_ hsyncs hmodels
      (fun m' => .built (m := m') hunserved) (.inr ⟨?_, rfl⟩))
    · rw [hprogram, hq]
    · exact Nat.succ_ne_self s.builds

/-- Whatever a session has done before, a call goes in one of six ways. -/
theorem IsSound.course (h : s.IsSound setup) (c : Call S) : Course setup s c := by
  cases hread : readRequest setup c.stage c.state c.noise c.index with
  | error e =>
      exact .unread e hread (by simp only [result, Session.solve, hread])
        (reaches_of_rejected hread)
  | ok r =>
      rcases s.serves_or_not c.stage c.function with ⟨m, hm, hserves⟩ | hunserved
      · by_cases hfits : ∀ cut ∈ m.newCuts c.function.function, cut.dim = m.program.dimStates
        · rcases h.course_of_serves hread hm hserves hfits with ⟨m', hputs⟩ | ⟨m', hmislays⟩
          · exact .put r m' hputs
          · exact .mislaid r m' hmislays
        · push Not at hfits
          obtain ⟨cut, hcut, hdim, hsolve⟩ := solve_of_misfit hread hm hserves hfits
          rw [record_nil] at hsolve
          exact .stopped m hm hserves cut hcut hdim hsolve
            (stops_of_serves hread hm hserves hfits).reaches
      · rcases stageModel_of_not_serves setup hunserved with
          ⟨e, hbuild, hstage⟩ | ⟨model, base, hbuild, ⟨e, hrefusal, hstage⟩ | ⟨-, hstage⟩⟩
        · exact .unbuilt e hbuild (by simp only [result, Session.solve, hread, hstage])
            (reaches_of_unserved hread hstage)
        · exact .refused e model hrefusal (by simp only [result, Session.solve, hread, hstage])
            (reaches_of_unserved hread hstage)
        · rcases course_of_built hread hunserved hbuild hstage with ⟨m, hputs⟩ | ⟨m, hmislays⟩
          · exact .put r m hputs
          · exact .mislaid r m hmislays

/-- A call that does not reach a model asks the backend nothing, and changes at most the program of
the model that its stage has. -/
structure Idles (setup : Setup S) (s : Session S) (c : Call S) : Prop where
  unreached : s.reaches setup c = false
  asked : (s.after setup c).asked = s.asked
  models : ∀ t, (s.after setup c).model? t = s.model? t ∨
    ∃ m p, s.model? t = some m ∧ (s.after setup c).model? t = some { m with program := p }

/-- A call reaches a model, and puts it to the backend or is found out there, or it idles. -/
theorem IsSound.puts_or_mislays_or_idles (h : s.IsSound setup) (c : Call S) :
    (∃ r m, s.Puts setup c r m) ∨ (∃ r m, s.Mislays setup c r m) ∨ s.Idles setup c := by
  cases h.course c with
  | unread e _ hresult hunreached =>
      have hafter : s.after setup c = s := congrArg Prod.fst hresult
      exact .inr (.inr ⟨hunreached, by rw [hafter], fun t => .inl (by rw [hafter])⟩)
  | unbuilt e _ hresult hunreached =>
      have hafter : s.after setup c = s := congrArg Prod.fst hresult
      exact .inr (.inr ⟨hunreached, by rw [hafter], fun t => .inl (by rw [hafter])⟩)
  | refused e model _ hresult hunreached =>
      have hafter : s.after setup c = s.counted setup c.stage model c.function :=
        congrArg Prod.fst hresult
      exact .inr (.inr ⟨hunreached, by rw [hafter]; rfl, fun t => .inl (by rw [hafter]; rfl)⟩)
  | stopped m hmodel _ cut _ _ hresult hunreached =>
      have hafter : s.after setup c = s.put c.stage (m.stuck c.function.function) :=
        congrArg Prod.fst hresult
      refine .inr (.inr ⟨hunreached, by rw [hafter]; rfl, fun t => ?_⟩)
      rw [hafter, model?_put]
      split
      · next hstage => exact .inr ⟨m, _, hstage ▸ hmodel, rfl⟩
      · exact .inl rfl
  | mislaid r m hmislays => exact .inr (.inl ⟨r, m, hmislays⟩)
  | put r m hputs => exact .inl ⟨r, m, hputs⟩

/-- A call that hands a program to the backend puts a model with that program to it. -/
theorem IsSound.puts_of_handed (h : s.IsSound setup) {q : StageProgram S}
    (hhanded : s.handed setup c = some q) : ∃ r m, s.Puts setup c r m ∧ m.program = q := by
  have hidle : (s.after setup c).asked ≠ s.asked := by
    intro hasked
    rw [handed_eq_none hasked] at hhanded
    cases hhanded
  rcases h.puts_or_mislays_or_idles c with ⟨r, m, hputs⟩ | ⟨r, m, hmislays⟩ | hidles
  · refine ⟨r, m, hputs, ?_⟩
    exact Option.some.inj ((handed_eq_some hputs.asked).symm.trans hhanded)
  · exact absurd (hmislays.syncs.asked.trans (List.append_nil _)) hidle
  · exact absurd hidles.asked hidle

end Session

end Bellman
