import Bellman.Fault

/-!
# Families of faults

A caller can tell faults apart by their family. Some families belong to the library; the others are
those of plain values and of what the library is built on.
-/

namespace Bellman

open Data

/-- What kind of thing went wrong. -/
inductive FaultFamily where
  | general
  | unsupportedCost
  | dimension
  | solver
  | noise
  | configuration
  | value
  | type
  | overflow
  | runtime
  | index
  | attribute
  | key
  | document
  | nesting
  | encoding
  | file
  | constraint
  deriving DecidableEq, Repr

def Fault.family : Fault → FaultFamily
  | .dimension .. => .dimension
  | .unknownUpdateMode _ => .configuration
  | .nonpositiveInfinity _ => .configuration
  | .negativeTolerance _ => .configuration
  | .nonpositiveTimeLimit _ => .configuration
  | .unknownCutVariable _ => .configuration
  | .unknownParameter _ => .type
  | .invalidDimensions .. => .configuration
  | .emptyBox .. => .configuration
  | .emptySupport => .configuration
  | .mixedSupport _ => .configuration
  | .probabilityCount .. => .configuration
  | .negativeProbability => .configuration
  | .probabilitySum _ => .configuration
  | .noLaws => .configuration
  | .noLaw .. => .configuration
  | .varyingRowCount _ => .configuration
  | .unsupportedCost _ => .unsupportedCost
  | .trivialConstraint => .constraint
  | .notAffine => .runtime
  | .unusableBound => .value
  | .boundNotNumeric => .type
  | .unmatchedNoise .. => .noise
  | .slotOutOfRange .. => .noise
  | .noiseIndexOutOfRange .. => .noise
  | .noiseIndexMismatch .. => .noise
  | .slotsUnavailable => .runtime
  | .slotStillLive .. => .runtime
  | .negativeMatchTolerance => .value
  | .endedWithoutOptimum .. => .solver
  | .missingDual .. => .solver
  | .backendRefused .. => .solver
  | .backendBroke _ => .runtime
  | .valueMissing => .value
  | .notANumber _ => .value
  | .notNumeric _ => .type
  | .tooLarge => .overflow
  | .tooLong => .value
  | .notReal _ => .type
  | .notACount _ => .type
  | .notAnIndex _ => .type
  | .notIterable _ => .type
  | .unordered .. => .type
  | .notAPair _ => .type
  | .pairLength .. => .value
  | .unhashable _ => .type
  | .missingAttribute .. => .attribute
  | .tooFewToUnpack _ => .value
  | .tooManyToUnpack => .value
  | .indexOutOfRange => .index
  | .betaMissing => .type
  | .surplusArguments .. => .type
  | .missingArguments .. => .type
  | .unsupportedFormat _ => .value
  | .notAMapping => .value
  | .malformedDocument => .document
  | .nestedTooDeeply => .nesting
  | .undecodableText => .encoding
  | .unreadableFile => .file
  | .unknownTruth => .key
  | .notATime => .attribute
  | .timeNotText => .type
  | .invalidScalar => .value
  | .characterMissing => .index
  | .scalarTooLarge => .overflow
  | .unknownLevel => .value
  | .levelNotNumeric => .type

/-- How the backend said that the solve ended, where a fault comes from a solve. -/
def Fault.termination? : Fault → Option String
  | .endedWithoutOptimum _ termination _ _ => termination
  | .missingDual _ _ termination => termination
  | .backendRefused _ termination => termination
  | _ => none

/-- A fault of one of the library's own families, with a message and details of any kind. -/
structure Complaint where
  family : FaultFamily
  message : Value
  details : List (String × Value) := []

namespace Complaint

/-- A fault that says nothing but its message. -/
def plain (family : FaultFamily) (message : Value) : Complaint :=
  { family, message }

def unsupportedCost (model : Value) : Complaint where
  family := .unsupportedCost
  message := .text ("Unsupported cost model: " ++ model.literal)
  details := [("cost_model", model)]

def dimension (what expected got : Value) : Complaint where
  family := .dimension
  message := .text <|
    what.display ++ " has dimension " ++ got.display ++ ", expected " ++ expected.display
  details := [("what", what), ("expected", expected), ("got", got)]

/-- A solve that failed, and how it ended if that is known. -/
def solver (message termination : Value) : Complaint where
  family := .solver
  message
  details := [("termination", termination)]

/-- What the complaints of a family are built from: the name they go by, the names of what is
required, and how much more may follow. -/
def takes : FaultFamily → String × List String × Nat
  | .unsupportedCost => ("UnsupportedCostModel", ["cost_model"], 0)
  | .dimension => ("DimensionMismatch", ["what", "expected", "got"], 0)
  | .solver => ("SolverError", ["message"], 1)
  | _ => ("SDDPError", ["message"], 0)

/-- The complaint of a family that is built from a list of values, if there are neither too many nor
too few. -/
def build (family : FaultFamily) (given : List Value) : Except Fault Complaint :=
  let (owner, required, optional) := takes family
  let least := required.length
  if least + optional < given.length then
    .error (.surplusArguments owner least (least + optional) given.length)
  else if given.length < least then .error (.missingArguments owner (required.drop given.length))
  else
    let argument (i : Nat) : Value := given.getD i .null
    .ok <| match family with
      | .unsupportedCost => unsupportedCost (argument 0)
      | .dimension => dimension (argument 0) (argument 1) (argument 2)
      | .solver => solver (argument 0) (argument 1)
      | family => plain family (argument 0)

def text (c : Complaint) : String :=
  c.message.display

end Complaint

end Bellman
