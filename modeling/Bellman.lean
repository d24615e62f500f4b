import Bellman.Backend.Choice
import Bellman.Configuration
import Bellman.Fault.Family
import Bellman.Journal
import Bellman.Problem.Formula
import Bellman.Session.Basic
import Bellman.Proofs.Attempt
import Bellman.Proofs.Reading
import Bellman.Proofs.Exact
import Bellman.Proofs.Expr
import Bellman.Proofs.Problem
import Bellman.Proofs.ValueFunction
import Bellman.Proofs.Program.Build
import Bellman.Proofs.Program.Body
import Bellman.Proofs.Program.Retarget
import Bellman.Proofs.Program.Rows
import Bellman.Proofs.Program.Feasible
import Bellman.Proofs.Program.ModeEquivalence
import Bellman.Proofs.Program.StageProblem
import Bellman.Proofs.Program.Duality
import Bellman.Proofs.Session.StageModel
import Bellman.Proofs.Session.Run
import Bellman.Proofs.Session.History
import Bellman.Proofs.Session.StoredStep
import Bellman.Proofs.Session.Provenance
import Bellman.Proofs.Session.Tangent
import Bellman.Proofs.Program.Slots
import Bellman.Proofs.Session.CutRows
import Bellman.Proofs.Session.Pruning
import Bellman.Proofs.NoiseLaw
import Bellman.Proofs.Session.Complete
import Bellman.Proofs.Session.Scenarios
import Bellman.Proofs.Session.Course
import Bellman.Proofs.Session.Refusal
import Bellman.Proofs.Session.Conclusion
import Bellman.Proofs.Session.Resting
import Bellman.Proofs.Session.Faithful
import Bellman.Proofs.Program.Tightening
import Bellman.Proofs.Session.Tightening
import Bellman.Proofs.NoiseLaw.Separated
import Bellman.Proofs.Session.NoiseIndex
import Bellman.Proofs.Session.Phases
import Bellman.Proofs.Session.Rebuilds
import Bellman.Proofs.Program.Binding
import Bellman.Proofs.ValueFunction.Offers
import Bellman.Proofs.NoiseLaw.Distribution
import Bellman.Proofs.Parameters.Range
import Bellman.Proofs.Parameters.Conversion
import Bellman.Proofs.Configuration
