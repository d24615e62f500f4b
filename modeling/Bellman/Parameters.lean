import Bellman.Data.Reading
import Bellman.UpdateMode

/-!
# Parameters

The parameters of a stage solver. They are given field by field, as keywords or as a plain mapping;
a mapping's fields are first converted to the kind of value they hold. `Given.check` accepts what is
given only if the numbers are in range and the modes are known. A number is kept in the kind in
which it was given.
-/

namespace Bellman

open Data

/-- Which state the cuts of the next stage's value function are written over. -/
inductive CutVariable where
  | nextState
  | state
  deriving DecidableEq, Repr

namespace CutVariable

def name : CutVariable → String
  | nextState => "next_state"
  | state => "state"

/-- All choices, in the order in which they are listed. -/
def all : List CutVariable :=
  [nextState, state]

def ofName? (s : String) : Option CutVariable :=
  all.find? (·.name = s)

end CutVariable

/-- The bound of rows that must never bind, from which on a bound counts as infinite. -/
def defaultInfinity : Float := 1e20

/-- Parameters of a stage solver that are known to be in range. -/
structure Parameters where
  solver : Value
  executable : Value
  options : Value
  timeLimit : Option Number
  verbose : Value
  updateMode : UpdateMode
  infinity : Number
  alphaLowerBound : Value
  noiseTolerance : Number
  cutVariable : CutVariable
  logLevel : Value

namespace Parameters

/-- Parameters as they are given, with the defaults of those left out. -/
structure Given where
  solver : Value := .text "appsi_highs"
  executable : Value := .null
  options : Value := .map []
  timeLimit : Value := .null
  verbose : Value := .bool false
  updateMode : Value := .mode .rebuild
  infinity : Value := .float defaultInfinity
  alphaLowerBound : Value := .float 0
  noiseTolerance : Value := .float 1e-9
  cutVariable : Value := .text CutVariable.nextState.name
  logLevel : Value := .text "INFO"

namespace Given

/-- The parameters that are given, if they are in range. -/
def check (g : Given) : Except Fault Parameters := do
  let updateMode ← UpdateMode.parse g.updateMode
  let infinity ← g.infinity.compared ">"
  if !infinity.isPositive then throw (.nonpositiveInfinity infinity)
  let noiseTolerance ← g.noiseTolerance.compared "<"
  if noiseTolerance.isNegative then throw (.negativeTolerance noiseTolerance)
  let timeLimit ← match g.timeLimit with
    | .null => pure none
    | v => do
      let limit ← v.compared "<="
      if limit.isNonpositive then throw (.nonpositiveTimeLimit limit)
      pure (some limit)
  let cutVariable ← match g.cutVariable with
    | .text s =>
      match CutVariable.ofName? s with
      | some choice => pure choice
      | none => throw (.unknownCutVariable (.text s))
    | v => throw (.unknownCutVariable v)
  return {
    solver := g.solver, executable := g.executable, options := g.options, timeLimit,
    verbose := g.verbose, updateMode, infinity, alphaLowerBound := g.alphaLowerBound,
    noiseTolerance, cutVariable, logLevel := g.logLevel }

/-- What is given with one field set; `none` if there is no field of that name. -/
def set? (g : Given) (name : String) (v : Value) : Option Given :=
  match name with
  | "solver" => some { g with solver := v }
  | "solver_executable" => some { g with executable := v }
  | "solver_options" => some { g with options := v }
  | "time_limit_s" => some { g with timeLimit := v }
  | "tee" => some { g with verbose := v }
  | "update_mode" => some { g with updateMode := v }
  | "infinity" => some { g with infinity := v }
  | "alpha_lower_bound" => some { g with alphaLowerBound := v }
  | "noise_tolerance" => some { g with noiseTolerance := v }
  | "cut_variable" => some { g with cutVariable := v }
  | "log_level" => some { g with logLevel := v }
  | _ => none

/-- What is given, by the names of the fields. -/
def toEntries (g : Given) : List (String × Value) :=
  [("solver", g.solver), ("solver_executable", g.executable), ("solver_options", g.options),
    ("time_limit_s", g.timeLimit), ("tee", g.verbose), ("update_mode", g.updateMode),
    ("infinity", g.infinity), ("alpha_lower_bound", g.alphaLowerBound),
    ("noise_tolerance", g.noiseTolerance), ("cut_variable", g.cutVariable),
    ("log_level", g.logLevel)]

/-- What is given by keywords, all of which have to be known. -/
def ofKeywords (keywords : List (String × Value)) : Except Fault Given :=
  keywords.foldlM (fun g (name, v) => match g.set? name v with
    | some g => .ok g
    | none => .error (.unknownParameter name)) {}

/-- A time limit as a field of a mapping gives it: none, or as a double. -/
def convertTimeLimit : Value → Except Fault Value
  | .null => .ok .null
  | v => .float <$> v.toFloat

/-- What is given by a mapping, each field converted to the kind of value it holds. Other keys of
the mapping do not matter. -/
def ofEntries (entries : List (Value × Value)) : Except Fault Given := do
  let defaults : Given := {}
  let field (name : String) (default : Value) := (Value.lookup? entries name).getD default
  let solver ← (field "solver" defaults.solver).toText
  let executable := field "solver_executable" defaults.executable
  let options ← (field "solver_options" .null).toEntries
  let timeLimit ← convertTimeLimit (field "time_limit_s" defaults.timeLimit)
  let verbose := Value.bool (field "tee" defaults.verbose).isTrue
  let infinity ← (field "infinity" defaults.infinity).toFloat
  let alphaLowerBound ← (field "alpha_lower_bound" defaults.alphaLowerBound).toFloat
  let noiseTolerance ← (field "noise_tolerance" defaults.noiseTolerance).toFloat
  let cutVariable ← (field "cut_variable" defaults.cutVariable).toText
  let logLevel ← (field "log_level" defaults.logLevel).toText
  return {
    solver := .text solver, executable := if executable.isTrue then executable else .null,
    options := .map options, timeLimit, verbose,
    updateMode := field "update_mode" defaults.updateMode,
    infinity := .float infinity, alphaLowerBound := .float alphaLowerBound,
    noiseTolerance := .float noiseTolerance,
    cutVariable := .text cutVariable, logLevel := .text logLevel }

end Given

def ofKeywords (keywords : List (String × Value)) : Except Fault Parameters := do
  (← Given.ofKeywords keywords).check

/-- The parameters given by a plain value that is taken as a mapping. -/
def ofMapping (raw : Value) : Except Fault Parameters := do
  (← Given.ofEntries (← raw.toEntries)).check

/-- What has to be given for the parameters, with their update mode in the form `mode`. -/
def given (p : Parameters) (mode : Value) : Given where
  solver := p.solver
  executable := p.executable
  options := p.options
  timeLimit := (p.timeLimit.map Value.num).getD .null
  verbose := p.verbose
  updateMode := mode
  infinity := .num p.infinity
  alphaLowerBound := p.alphaLowerBound
  noiseTolerance := .num p.noiseTolerance
  cutVariable := .text p.cutVariable.name
  logLevel := p.logLevel

/-- The parameters by the names of their fields. -/
def toEntries (p : Parameters) : List (String × Value) :=
  (p.given (.text p.updateMode.keyword)).toEntries

def default : Parameters where
  solver := .text "appsi_highs"
  executable := .null
  options := .map []
  timeLimit := none
  verbose := .bool false
  updateMode := .rebuild
  infinity := .real defaultInfinity
  alphaLowerBound := .float 0
  noiseTolerance := .real 1e-9
  cutVariable := .nextState
  logLevel := .text "INFO"

end Parameters

end Bellman
