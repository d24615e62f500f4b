import Bellman.Scalar

/-!
# Noise laws

The noise of a stage takes one of finitely many values. A value is known by its place in the
support, its noise index, and a given noise is matched to the first value of the support that is
close to it in every coordinate.
-/

namespace Bellman

open Data

section Closeness

variable {S : Type} [Zero S] [Sub S] [LE S] [DecidableLE S]

/-- Whether two scalars are equal, or finite and at most `tolerance` apart. -/
def isClose (tolerance a b : S) : Bool :=
  (a ≤ b && b ≤ a) ||
    (isFinite a && isFinite b && b - a ≤ tolerance && a - b ≤ tolerance)

/-- Whether two vectors are close in every coordinate. -/
def areClose (tolerance : S) (as bs : List S) : Bool :=
  (as.zip bs).all fun (a, b) => isClose tolerance a b

end Closeness

/-- The values a noise can take and their probabilities. Probabilities stay in the kind in which
they were given. -/
structure NoiseLaw (S : Type) where
  support : List (List S)
  probabilities : List Number

namespace NoiseLaw

variable {S : Type}

def dim (law : NoiseLaw S) : Nat :=
  (law.support.headD []).length

def size (law : NoiseLaw S) : Nat :=
  law.support.length

/-- The distinct members of a list of naturals in increasing order. -/
def distinct (ns : List Nat) : List Nat :=
  (ns.mergeSort (· ≤ ·)).eraseReps

/-- The sum of numbers, whole as long as they all are. -/
def sumNumbers (ns : List Number) : Except Fault Number :=
  ns.foldlM (fun sum n => match sum.add? n with
    | some s => .ok s
    | none => .error .tooLarge) (.whole 0)

/-- How far the probabilities of a law may sum up beside one. -/
def sumTolerance : Float := 1e-8

/-- The numbers behind probabilities, none of which may be negative. -/
def readProbabilities (probabilities : List Value) : Except Fault (List Number) :=
  probabilities.mapM fun p => do
    let n ← p.compared "<"
    if n.isNegative then throw .negativeProbability
    return n

/-- The law with a given support and probabilities: the support has to consist of vectors of one
length, and the probabilities have to be as many, not negative, and sum to one. -/
def of (support : List (List S)) (probabilities : List Value) : Except Fault (NoiseLaw S) := do
  if support.isEmpty then throw .emptySupport
  let dims := distinct (support.map List.length)
  if dims.length ≠ 1 then throw (.mixedSupport dims)
  if probabilities.length ≠ support.length then
    throw (.probabilityCount probabilities.length support.length)
  let probabilities ← readProbabilities probabilities
  let sum ← sumNumbers probabilities
  if sumTolerance < ((← sum.toFloat) - 1.0).abs then throw (.probabilitySum sum)
  return ⟨support, probabilities⟩

def uniform (n : Nat) : List Value :=
  List.replicate n (.float (1.0 / n.toFloat))

variable [Scalar S]

/-- A value of a support: a number stands for a vector with one coordinate. -/
def readSupportValue (v : Value) : Except Fault (List S) := do
  match v with
  | .num _ => return [← Scalar.read v]
  | _ => (← v.items).mapM Scalar.read

/-- The law of plain values, uniform unless probabilities are given. -/
def ofValues (support probabilities : Value) : Except Fault (NoiseLaw S) := do
  let values ← (← support.items).mapM readSupportValue
  match probabilities with
  | .null => of values (uniform values.length)
  | ps => of values ((← ps.toFloats).map .float)

def writeSupport (law : NoiseLaw S) : Value :=
  .tuple (law.support.map Scalar.writeVector)

variable [Zero S] [Sub S] [LE S] [DecidableLE S] [LT S] [DecidableLT S]

/-- The index of the first value of the support that is close to a noise. -/
def find? (law : NoiseLaw S) (tolerance : S) (noise : List S) : Option Nat :=
  law.support.findIdx? fun value => areClose tolerance value noise

/-- The noise index of a vector; the tolerance matters only if there are coordinates to compare. -/
def indexOf (law : NoiseLaw S) (noise : List S) (tolerance : Value) : Except Fault Nat := do
  let tolerance ← if law.dim = 0 then pure 0 else Scalar.read (.num (← tolerance.toReal))
  if tolerance < 0 then throw .negativeMatchTolerance
  match law.find? tolerance noise with
  | some k => return k
  | none => throw (.unmatchedNoise (Scalar.writeVector noise) law.writeSupport)

def indexOfValue (law : NoiseLaw S) (noise tolerance : Value) : Except Fault Nat := do
  law.indexOf (← Scalar.readVector "noise" (.int law.dim) noise) tolerance

end NoiseLaw

end Bellman
