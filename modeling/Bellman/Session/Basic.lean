import Bellman.Session.StageModel

/-!
# Sessions

A session solves stages of one problem with one backend. It keeps one model per stage, built on
first use and then retargeted: cuts that the value function has gained are appended before each
solve, and the state and the noise are set. A model is built anew when another value function is
asked for, or when the value function has lost cuts.

`Session.solve` gives the session as it is left behind together with the outcome or fault. What the
backend was asked is kept in order, and so is the journal.
-/

namespace Bellman

open Data

/-- What stays the same during a session. -/
structure Setup (S : Type) where
  problem : Problem S
  params : Parameters
  backend : Backend S

structure Session (S : Type) where
  /-- The model of each stage that has one. -/
  models : List (Int × StageModel S) := []
  /-- How many programs were built. -/
  builds : Nat := 0
  /-- How many times a backend was to be set up. -/
  backends : Nat := 0
  /-- The programs the backend was asked to solve. -/
  asked : List (StageProgram S) := []
  /-- What happened, in order. -/
  notes : List Note := []

namespace Session

variable {S : Type}

def model? (s : Session S) (stage : Int) : Option (StageModel S) :=
  s.models.lookup stage

/-- The list of models with the model of one stage replaced or added. -/
def setModel (stage : Int) (m : StageModel S) :
    List (Int × StageModel S) → List (Int × StageModel S)
  | [] => [(stage, m)]
  | (t, n) :: rest => if t = stage then (t, m) :: rest else (t, n) :: setModel stage m rest

def put (s : Session S) (stage : Int) (m : StageModel S) : Session S :=
  { s with models := setModel stage m s.models }

def record (s : Session S) (notes : List Note) : Session S :=
  { s with notes := s.notes ++ notes }

@[simp] theorem lookup_setModel (stage t : Int) (m : StageModel S)
    (models : List (Int × StageModel S)) :
    (setModel stage m models).lookup t = if t = stage then some m else models.lookup t := by
  induction models with
  | nil => by_cases h : t = stage <;> simp [setModel, List.lookup_cons, h, beq_eq_false_iff_ne.2]
  | cons head rest ih =>
    obtain ⟨u, n⟩ := head
    by_cases hu : u = stage <;> by_cases ht : t = u <;> by_cases hs : t = stage <;>
      simp_all [setModel, List.lookup_cons, beq_eq_false_iff_ne.2]

@[simp] theorem model?_put (s : Session S) (stage t : Int) (m : StageModel S) :
    (s.put stage m).model? t = if t = stage then some m else s.model? t :=
  lookup_setModel stage t m s.models

@[simp] theorem model?_record (s : Session S) (notes : List Note) (t : Int) :
    (s.record notes).model? t = s.model? t := rfl

variable [Scalar S] [Zero S] [Neg S]

/-- The model that serves a stage with a value function, built if there is none. -/
def stageModel (setup : Setup S) (s : Session S) (stage : Int) (f : NamedFunction S) :
    Session S × Except Fault (StageModel S) :=
  match (s.model? stage).filter (·.serves f) with
  | some m => (s, .ok m)
  | none =>
    match StageProgram.build setup.problem setup.params stage f.function with
    | .error e => (s, .error e)
    | .ok (costModel, program) =>
      let s := { s with builds := s.builds + 1 }.record
        [.built stage setup.params.updateMode costModel f.function.size]
      let s := { s with backends := s.backends + 1 }
      match setup.backend.refusal with
      | some e => (s, .error e)
      | none =>
        let m := StageModel.fresh program f
        (s.put stage m, .ok m)

section Requests

variable [Sub S] [LE S] [DecidableLE S] [LT S] [DecidableLT S]

/-- The index of a noise at a stage. One that is given has to have the value of the one that is
found, and is kept in its own kind. -/
def noiseIndex (setup : Setup S) (stage : Int) (noise : List S) (index : Value) :
    Except Fault Number := do
  let law ← setup.problem.law stage
  match index with
  | .null => return .whole (← law.indexOf noise (.num setup.params.noiseTolerance))
  | .num k =>
    if !k.isInRange law.size then
      throw (k.shownIn (.noiseIndexOutOfRange k stage law.size))
    let found ← law.indexOf noise (.num setup.params.noiseTolerance)
    if !k.sameValue (.whole found) then
      throw (.noiseIndexMismatch (Scalar.writeVector noise) k stage)
    return k
  | v => throw (.unordered "<=" "int" v.typeName)

/-- The request that plain values describe, if they fit the problem. -/
def readRequest (setup : Setup S) (stage : Int) (state noise index : Value) :
    Except Fault (Request S) := do
  let state ← Scalar.readVector "state" (.num setup.problem.states) state
  let noise ← Scalar.readVector "noise" (.num setup.problem.noises) noise
  match setup.params.updateMode with
  | .rebuild => return ⟨state, noise, none⟩
  | .slotReuse => return ⟨state, noise, some (← noiseIndex setup stage noise index)⟩

end Requests

variable [One S] [Add S] [Mul S] [LE S] [DecidableLE S]

/-- Put a targeted model to the backend, and conclude from the reply. -/
def ask (setup : Setup S) (s : Session S) (stage : Int) (m : StageModel S) (r : Request S) :
    Session S × Except Fault (Outcome S) :=
  let (m, ready) := m.enter .ready
  let (m, solving) := m.enter .solving
  let reply := setup.backend.reply s.asked m.program
  let asked := s.asked ++ [m.program]
  let (m, concluded, outcome) := m.receive setup.params.solver.display r reply
  let (m, released) := m.release r
  (({ s with asked }.put stage m).record ([ready, solving] ++ concluded ++ released), outcome)

/-- Solve a stage with the model that serves it: append new cuts, target the request, and ask. -/
def solveModel (setup : Setup S) (s : Session S) (stage : Int) (m : StageModel S)
    (f : ValueFunction S) (r : Request S) : Session S × Except Fault (Outcome S) :=
  match m.sync f with
  | (m, notes, some e) => ((s.put stage m).record notes, .error e)
  | (m, notes, none) =>
    match m.aim r with
    | (m, aimed, some e) => ((s.put stage m).record (notes ++ aimed), .error e)
    | (m, aimed, none) => ask setup (s.record (notes ++ aimed)) stage m r

variable [Sub S] [LT S] [DecidableLT S]

/-- Solve a stage for a state and a noise against the value function of the next stage. -/
def solve (setup : Setup S) (s : Session S) (stage : Int) (state noise : Value)
    (f : NamedFunction S) (index : Value) : Session S × Except Fault (Outcome S) :=
  match readRequest setup stage state noise index with
  | .error e => (s, .error e)
  | .ok r =>
    match s.stageModel setup stage f with
    | (s, .error e) => (s, .error e)
    | (s, .ok m) => s.solveModel setup stage m f.function r

/-- Solve a stage for the noises of a list, of which the first has index `k`, up to the first fault.
-/
def solveEach (setup : Setup S) (s : Session S) (stage : Int) (state : Value)
    (f : NamedFunction S) (k : Nat) : List (List S) → Session S × Except Fault (List (Outcome S))
  | [] => (s, .ok [])
  | noise :: rest =>
    match s.solve setup stage state (Scalar.writeVector noise) f (.int k) with
    | (s, .error e) => (s, .error e)
    | (s, .ok o) =>
      match s.solveEach setup stage state f (k + 1) rest with
      | (s, .error e) => (s, .error e)
      | (s, .ok os) => (s, .ok (o :: os))

/-- Solve a stage for every value of its noise, in the order of the support. -/
def solveScenarios (setup : Setup S) (s : Session S) (stage : Int) (state : Value)
    (f : NamedFunction S) : Session S × Except Fault (List (Outcome S)) :=
  match setup.problem.law stage with
  | .error e => (s, .error e)
  | .ok law => s.solveEach setup stage state f 0 law.support

/-- A setup in which the noise is always a variable. -/
def Setup.rebuilding (setup : Setup S) : Setup S :=
  { setup with params := { setup.params with updateMode := .rebuild } }

/-- Solve a stage once with a model of its own, which is not kept. The backend is the one of the
session, and remembers. -/
def solveOnce (setup : Setup S) (s : Session S) (stage : Int) (state noise : Value)
    (f : NamedFunction S) : Session S × Except Fault (Outcome S) :=
  let alone : Session S := { asked := s.asked, backends := s.backends, notes := s.notes }
  let (alone, outcome) := alone.solve (Setup.rebuilding setup) stage state noise f .null
  ({ s with asked := alone.asked, backends := alone.backends, notes := alone.notes }, outcome)

end Session

end Bellman
