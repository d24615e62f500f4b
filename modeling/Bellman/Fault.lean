import Bellman.Data.Value

/-!
# Faults

A `Fault` is the cause for which an operation ends without a result. Its family is what a caller can
tell it apart by, and `Fault.message` is its wording. Vectors inside a fault are plain values, so
that one type of fault serves every kind of scalar.
-/

namespace Bellman

open Data

/-- The cause of a failed operation. -/
inductive Fault where
  /-- A vector does not have the declared number of coordinates. -/
  | dimension (what : String) (expected got : Value)
  -- parameters
  | unknownUpdateMode (value : Value)
  | nonpositiveInfinity (given : Number)
  | negativeTolerance (given : Number)
  | nonpositiveTimeLimit (given : Number)
  | unknownCutVariable (value : Value)
  | unknownParameter (name : String)
  -- problem declaration
  | invalidDimensions (states controls noises : Value)
  | emptyBox (name : String) (index : Nat) (lower upper : Value)
  | emptySupport
  | mixedSupport (dimensions : List Nat)
  | probabilityCount (given values : Nat)
  | negativeProbability
  | probabilitySum (total : Number)
  | noLaws
  | noLaw (stage : Int) (declared : Nat)
  | varyingRowCount (stage : Int)
  | unsupportedCost (model : Value)
  /-- A constraint that mentions no variable at all. -/
  | trivialConstraint
  /-- A product of two decision variables. -/
  | notAffine
  /-- A bound that is no number, or infinite on the wrong side. -/
  | unusableBound
  /-- A bound of a kind that cannot be a number. -/
  | boundNotNumeric
  -- noise and slots
  | unmatchedNoise (noise support : Value)
  | slotOutOfRange (index : Number) (slots : Nat)
  | noiseIndexOutOfRange (index : Number) (stage : Int) (values : Nat)
  | noiseIndexMismatch (noise : Value) (index : Number) (stage : Int)
  | slotsUnavailable
  | slotStillLive (live : Nat) (wanted : Number)
  | negativeMatchTolerance
  -- solving
  | endedWithoutOptimum (stage : Int) (termination : Option String) (state noise : Value)
  | missingDual (solver row : String) (termination : Option String)
  /-- A backend gave up with an error of its own. -/
  | backendRefused (message : String) (termination : Option String)
  /-- A backend failed in an unexpected way; without a wording if the failure is not its own. -/
  | backendBroke (message : Option String)
  /-- A quantity depends on a variable that has no value. -/
  | valueMissing
  -- plain values
  | notANumber (text : String)
  | notNumeric (typeName : String)
  | tooLarge
  /-- A number has too many digits to be written. -/
  | tooLong
  /-- A value that is to be compared in arithmetic is no number. -/
  | notReal (typeName : String)
  /-- A count is no whole number. -/
  | notACount (typeName : String)
  /-- An index is no whole number. -/
  | notAnIndex (typeName : String)
  | notIterable (typeName : String)
  | unordered (relation left right : String)
  | notAPair (index : Nat)
  | pairLength (index length : Nat)
  | unhashable (typeName : String)
  | missingAttribute (typeName name : String)
  | tooFewToUnpack (got : Nat)
  | tooManyToUnpack
  | indexOutOfRange
  | betaMissing
  /-- Something is built from more than it takes, besides itself. -/
  | surplusArguments (owner : String) (least most given : Nat)
  /-- Something is built without some of what it takes. -/
  | missingArguments (owner : String) (names : List String)
  -- documents and journals
  | unsupportedFormat (suffix : String)
  | notAMapping
  | malformedDocument
  /-- A document has too many collections within each other. -/
  | nestedTooDeeply
  | undecodableText
  | unreadableFile
  /-- A word of a document that is to be true or false is neither. -/
  | unknownTruth
  /-- A text of a document that is to be a time is none. -/
  | notATime
  /-- A time of a document is no text, but only has an entry that stands for one. -/
  | timeNotText
  /-- A text of a document does not write what it is said to. -/
  | invalidScalar
  /-- A number of a document is written with no characters. -/
  | characterMissing
  /-- A number of a document, or a code in it, is beyond all bounds. -/
  | scalarTooLarge
  | unknownLevel
  /-- A level is neither a number nor a name. -/
  | levelNotNumeric

namespace Fault

/-- How a backend said that a solve ended, as messages show it. -/
def terminationText (termination : Option String) : String :=
  termination.getD "None"

/-- Names in quotes, as messages list them. -/
def nameList : List String → String
  | [] => ""
  | [a] => s!"'{a}'"
  | [a, b] => s!"'{a}' and '{b}'"
  | names =>
    let (front, last) := (names.dropLast, names.getLastD "")
    String.join (front.map fun a => s!"'{a}', ") ++ s!"and '{last}'"

/-- The wording of a fault; `none` for a fault that is told by its family alone. -/
def message : Fault → Option String
  | dimension what expected got =>
    some (what ++ " has dimension " ++ got.display ++ ", expected " ++ expected.display)
  | unknownUpdateMode v => some ("Unknown update mode: " ++ v.literal)
  | nonpositiveInfinity n => some ("infinity sentinel must be positive, got " ++ n.text)
  | negativeTolerance n => some ("noise_tolerance must be non-negative, got " ++ n.text)
  | nonpositiveTimeLimit n => some ("time_limit_s must be positive, got " ++ n.text)
  | unknownCutVariable v =>
    some ("cut_variable must be one of ('next_state', 'state'), got " ++ v.literal)
  | unknownParameter name =>
    some s!"SDDPParameters.__init__() got an unexpected keyword argument '{name}'"
  | invalidDimensions s c n =>
    some ("invalid dimensions: states=" ++ s.display ++ " controls=" ++ c.display ++
      " noises=" ++ n.display)
  | emptyBox name i lo hi =>
    some (s!"{name}[{i}] is empty: (" ++ lo.display ++ ", " ++ hi.display ++ ")")
  | emptySupport => some "noise support must not be empty"
  | mixedSupport ds =>
    some ("noise support mixes dimensions [" ++ ", ".intercalate (ds.map toString) ++ "]")
  | probabilityCount given values => some s!"{given} probabilities for {values} noise values"
  | negativeProbability => some "noise probabilities must be non-negative"
  | probabilitySum total => some ("noise probabilities sum to " ++ total.text ++ ", expected 1")
  | noLaws => some "problem declares no noise laws"
  | noLaw stage declared => some s!"no noise law for stage {stage} ({declared} declared)"
  | varyingRowCount stage =>
    some s!"stage {stage} business constraints change row count across noise values"
  | unsupportedCost model => some ("Unsupported cost model: " ++ model.literal)
  | trivialConstraint => none
  | notAffine => some "a term multiplies two decision variables"
  | unusableBound => none
  | boundNotNumeric => none
  | unmatchedNoise noise support =>
    some ("noise " ++ noise.literal ++ " is not in the stage support " ++ support.literal)
  | slotOutOfRange k n => some ("noise index " ++ k.text ++ s!" out of range [0, {n})")
  | noiseIndexOutOfRange k stage n =>
    some ("noise index " ++ k.text ++ s!" out of range for stage {stage} ({n} values)")
  | noiseIndexMismatch noise k stage =>
    some ("noise " ++ noise.literal ++ " does not match support value " ++ k.text ++
      s!" of stage {stage}")
  | slotsUnavailable => some "noise slots only exist in slot-reuse mode"
  | slotStillLive live wanted =>
    some (s!"noise slot {live} is still live; deactivate it before activating " ++ wanted.text)
  | negativeMatchTolerance => some "tolerances must be non-negative"
  | endedWithoutOptimum stage termination state noise =>
    some (s!"stage {stage} solve ended with {terminationText termination} at state=" ++
      state.literal ++ " noise=" ++ noise.literal)
  | missingDual solver row _ => some s!"{solver} returned no dual for {row}"
  | backendRefused message _ => some message
  | backendBroke message => message
  | valueMissing => none
  | notANumber text => some ("could not convert string to float: " ++ text)
  | notNumeric t => some s!"float() argument must be a string or a real number, not '{t}'"
  | tooLarge => some "int too large to convert to float"
  | tooLong =>
    some (s!"Exceeds the limit ({Number.mostDigits} digits) for integer string conversion; " ++
      "use sys.set_int_max_str_digits() to increase the limit")
  | notReal t => some s!"must be real number, not {t}"
  | notACount t => some s!"'{t}' object cannot be interpreted as an integer"
  | notAnIndex t => some s!"list indices must be integers or slices, not {t}"
  | notIterable t => some s!"'{t}' object is not iterable"
  | unordered relation l r =>
    some s!"'{relation}' not supported between instances of '{l}' and '{r}'"
  | notAPair i => some s!"cannot convert dictionary update sequence element #{i} to a sequence"
  | pairLength i n =>
    some s!"dictionary update sequence element #{i} has length {n}; 2 is required"
  | unhashable t => some s!"unhashable type: '{t}'"
  | missingAttribute t name => some s!"'{t}' object has no attribute '{name}'"
  | tooFewToUnpack n => some s!"not enough values to unpack (expected 2, got {n})"
  | tooManyToUnpack => some "too many values to unpack (expected 2)"
  | indexOutOfRange => some "list index out of range"
  | betaMissing => some "beta is required when lambdas is not a Cut"
  | surplusArguments owner least most given =>
    let takes := if least = most then s!"{least + 1}" else s!"from {least + 1} to {most + 1}"
    some (s!"{owner}.__init__() takes {takes} positional arguments but {given + 1} were given")
  | missingArguments owner names =>
    let arguments := if names.length = 1 then "argument" else "arguments"
    some (s!"{owner}.__init__() missing {names.length} required positional {arguments}: " ++
      nameList names)
  | unsupportedFormat suffix =>
    some s!"Unsupported config format '{suffix}'. Please provide a YAML file."
  | notAMapping => some "Top-level YAML document must be a mapping"
  | malformedDocument => none
  | nestedTooDeeply => none
  | undecodableText => none
  | unreadableFile => none
  | unknownTruth => none
  | notATime => none
  | timeNotText => none
  | invalidScalar => none
  | characterMissing => none
  | scalarTooLarge => none
  | unknownLevel => none
  | levelNotNumeric => none

end Fault

end Bellman
