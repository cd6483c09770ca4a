import QuadraticProgram.Binary64.Flushed
import QuadraticProgram.Decimal.Format
import QuadraticProgram.Decimal.Shortest
import QuadraticProgram.Exact
import QuadraticProgram.Extended
import QuadraticProgram.Residuals
import QuadraticProgram.Solver.Stepwise
import QuadraticProgram.Tensor.Source
import QuadraticProgram.Proofs.Comparison
import QuadraticProgram.Proofs.Binary64
import QuadraticProgram.Proofs.Exact.Dense
import QuadraticProgram.Proofs.Exact.Reflector
import QuadraticProgram.Proofs.Exact.Elimination
import QuadraticProgram.Proofs.Pattern.Fill
import QuadraticProgram.Proofs.Pattern.Ordering
import QuadraticProgram.Proofs.Exact.Factorization
import QuadraticProgram.Proofs.Exact.Solve
import QuadraticProgram.Proofs.Exact.Singularity
import QuadraticProgram.Proofs.Normals
import QuadraticProgram.Proofs.Newton
import QuadraticProgram.Proofs.ActiveSet
import QuadraticProgram.Proofs.Run.Coherence
import QuadraticProgram.Proofs.Optimality
import QuadraticProgram.Proofs.Run.Feasibility
import QuadraticProgram.Proofs.Run.Success
import QuadraticProgram.Proofs.Run.NewtonStep
import QuadraticProgram.Proofs.Run.Shrinking
import QuadraticProgram.Proofs.Kernel
import QuadraticProgram.Proofs.Run.Anchored
import QuadraticProgram.Proofs.Run.WorkingSet
import QuadraticProgram.Proofs.Run.LeastIndex
import QuadraticProgram.Proofs.Run.Termination
import QuadraticProgram.Proofs.Run.Converged
import QuadraticProgram.Proofs.Run.Descent
import QuadraticProgram.Proofs.Run.Independence
import QuadraticProgram.Proofs.Run.WarmStart
import QuadraticProgram.Proofs.Run.Lockstep
import QuadraticProgram.Proofs.Run.Setup
import QuadraticProgram.Proofs.Rescaling
import QuadraticProgram.Proofs.Mirror
import QuadraticProgram.Proofs.Run.Mirror
import QuadraticProgram.Proofs.Exact.Uniform
import QuadraticProgram.Proofs.Scaling
import QuadraticProgram.Proofs.Run.Scaling
import QuadraticProgram.Proofs.Stepwise
import QuadraticProgram.Proofs.MaximalStep
import QuadraticProgram.Proofs.Run.Budget
import QuadraticProgram.Proofs.Run.Absorbing
import QuadraticProgram.Proofs.Trace
import QuadraticProgram.Proofs.Run.Flips
import QuadraticProgram.Proofs.Run.EqualityConstrained
import QuadraticProgram.Proofs.Run.FiniteSides
import QuadraticProgram.Proofs.Pattern.Assembly
import QuadraticProgram.Proofs.Pattern.FillPath
import QuadraticProgram.Proofs.Pattern.MinimumDegree
import QuadraticProgram.Proofs.Pattern.TriangleFill
import QuadraticProgram.Proofs.NearOptimality
import QuadraticProgram.Proofs.Finiteness
import QuadraticProgram.Proofs.SpecialValues
