import Bellman.Fault
import Bellman.Text.Keyword

/-!
# Cost models

The cost of a stage is either one affine function or the maximum of several. The choice is known by
a keyword.
-/

namespace Bellman

open Data

/-- How the cost of a stage enters its objective. -/
inductive CostModel where
  /-- One affine function. -/
  | linear
  /-- The maximum of affine pieces. -/
  | piecewiseLinear
  deriving DecidableEq, Repr

namespace CostModel

def keyword : CostModel → String
  | linear => "LINEAR"
  | piecewiseLinear => "PIECEWISE_LINEAR"

def ofKeyword? : String → Option CostModel
  | "LINEAR" => some linear
  | "PIECEWISE_LINEAR" => some piecewiseLinear
  | _ => none

/-- The cost model a text names, whatever its case. -/
def parse : Value → Except Fault CostModel
  | .text s =>
    match ofKeyword? (Text.trimmedKeyword s) with
    | some model => .ok model
    | none => .error (.unsupportedCost (.text s))
  | v => .error (.unsupportedCost v)

end CostModel

end Bellman
