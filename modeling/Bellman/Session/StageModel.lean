import Bellman.Backend.Basic
import Bellman.Outcome
import Bellman.Program.Retarget
import Bellman.Session.Note

/-!
# Stage models

A stage model is a stage program together with what a session has to remember about it: the value
function it was built against and how many of its cuts have become rows, the phase, the number of
answers the backend has given, and the values that are stored in it.

`StageModel.sync` appends the cuts that are new, `StageModel.aim` targets a request, and
`StageModel.conclude` turns the answer of the backend into an outcome. Each gives the model as it is
left behind, also when the result is a fault.
-/

namespace Bellman

open Data

/-- A value function with an identity, which tells it apart from any other with the same cuts. -/
structure NamedFunction (S : Type) where
  id : Nat
  function : ValueFunction S

/-- A state and a noise that a stage is to be solved for, and if the stage has slots, the index of
the noise in the kind in which it was given. -/
structure Request (S : Type) where
  state : List S
  noise : List S
  index : Option Number

/-- The slot of a request, if it has an index that is one. -/
def Request.slot? {S : Type} (r : Request S) : Option Nat :=
  (r.index.bind Number.toInt?).map Int.toNat

/-- A stage program and what is remembered about it. -/
structure StageModel (S : Type) where
  program : StageProgram S
  /-- The identity of the value function that the program was built against. -/
  functionId : Nat
  /-- How many cuts of the value function count as being in the program. -/
  synced : Nat
  phase : Phase
  /-- How many answers the backend has given. -/
  answers : Nat
  stored : Solution S

namespace StageModel

variable {S : Type}

def fresh (program : StageProgram S) (f : NamedFunction S) : StageModel S where
  program
  functionId := f.id
  synced := f.function.size
  phase := .ready
  answers := 0
  stored := {}

/-- Whether a model still serves a value function: it was built against the same one, which has not
lost cuts since. -/
def serves (m : StageModel S) (f : NamedFunction S) : Bool :=
  m.functionId = f.id && m.synced ≤ f.function.size

/-- A program with the rows of the given cuts, up to the first that does not fit. -/
def addCuts (p : StageProgram S) : List (Cut S) → StageProgram S × Option Fault
  | [] => (p, none)
  | c :: cs =>
    match p.addCut c with
    | .ok p' => addCuts p' cs
    | .error e => (p, some e)

/-- A model with the cuts that its value function has gained. -/
def sync (m : StageModel S) (f : ValueFunction S) : StageModel S × List Note × Option Fault :=
  if f.size = m.synced then (m, [], none)
  else
    match addCuts m.program (f.cuts.drop m.synced) with
    | (p, some e) => ({ m with program := p }, [], some e)
    | (p, none) =>
      ({ m with program := p, synced := f.size },
        [.synced p.stage (f.size - m.synced) f.size], none)

/-- A model whose program is targeted to a request. If no slot can be switched on, the state has
been set by then. -/
def aim [Zero S] (m : StageModel S) (r : Request S) : StageModel S × List Note × Option Fault :=
  let p := m.program.setState r.state
  match r.index with
  | none => ({ m with program := p.setNoise r.noise }, [], none)
  | some k =>
    match p.activate k with
    | .ok p' => ({ m with program := p' }, r.slot?.toList.map .switchedOn, none)
    | .error e => ({ m with program := p }, [], some e)

/-- A model whose slot is pinned again after a request. -/
def release [Neg S] (m : StageModel S) (r : Request S) : StageModel S × List Note :=
  match r.slot? with
  | none => (m, [])
  | some k => ({ m with program := m.program.switchOff k }, [.switchedOff k])

variable [Scalar S] [Zero S] [One S] [Neg S] [Add S] [Mul S] [LE S] [DecidableLE S]

def storedValue (m : StageModel S) (c : Column) : Except Fault (Reported S) :=
  match m.stored.value? c with
  | some v => .ok v
  | none => .error .valueMissing

/-- What a term comes to at the stored values. A column that stands by itself comes to its value as
it was reported. -/
def storedTerm (m : StageModel S) : Term S → Except Fault (Reported S)
  | .weight x => .ok (.scalar (x.eval m.program.noiseAt))
  | .multiple p => do
    let v ← m.storedValue p.column
    match p with
    | .single s _ =>
      if isOne s then return v else return .scalar (s * (← v.read))
    | p => return .scalar (p.eval m.program.noiseAt (← v.read))

def storedStep (m : StageModel S) (solver : String) (termination : Option String) :
    Except Fault (Step S) := do
  let p := m.program
  let dualState ← (List.range p.dimStates).mapM fun i =>
    match m.stored.dual? i with
    | some d => d.read
    | none => .error (.missingDual solver (RowName.stateFix i).text termination)
  let nextState ← (List.range p.dimStates).mapM fun i => do
    (← m.storedValue (.nextState i)).read
  let control ← (List.range p.controlBounds.length).mapM fun j => do
    (← m.storedValue (.control j)).read
  let objective ← Reported.sum (← p.objective.mapM m.storedTerm)
  let futureCost ← (← m.storedValue .future).read
  return { nextState, control, dualState, objective, futureCost }

def enter (m : StageModel S) (phase : Phase) : StageModel S × Note :=
  ({ m with phase }, .phase m.program.stage m.phase phase)

/-- The outcome of a request for which the backend ended in some status. -/
def conclude (m : StageModel S) (solver : String) (r : Request S) (status : SolveStatus)
    (termination : Option String) : StageModel S × List Note × Except Fault (Outcome S) :=
  let stage := m.program.stage
  let state := Scalar.writeVector r.state
  let noise := Scalar.writeVector r.noise
  match status with
  | .infeasible =>
    let (m, note) := m.enter .solvedInfeasible
    (m, [note, .infeasible stage state noise termination],
      .ok (.infeasible ⟨stage, r.state, r.noise, termination⟩))
  | .optimal =>
    match m.storedStep solver termination with
    | .ok step =>
      let (m, note) := m.enter .solvedOptimal
      (m, [note], .ok (.step step))
    | .error e => (m, [], .error e)
  | _ =>
    let (m, note) := m.enter .solvedInfeasible
    (m, [note], .error (.endedWithoutOptimum stage termination state noise))

/-- A model after the backend has replied, and what the reply comes to. -/
def receive (m : StageModel S) (solver : String) (r : Request S) :
    Reply S → StageModel S × List Note × Except Fault (Outcome S)
  | .failed cause => (m, [], .error cause)
  | .ended status termination stored =>
    let m := { m with answers := m.answers + 1, stored := m.stored.store (stored.getD {}) }
    m.conclude solver r status termination

end StageModel

end Bellman
