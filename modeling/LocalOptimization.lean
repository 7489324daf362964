import LocalOptimization.Observer.Trace
import LocalOptimization.Proofs.Box.Projection
import LocalOptimization.Proofs.Broyden.Affine
import LocalOptimization.Proofs.Constrained.Acceptance
import LocalOptimization.Proofs.Constrained.Derivative
import LocalOptimization.Proofs.Constrained.Duality
import LocalOptimization.Proofs.Constrained.Feasibility
import LocalOptimization.Proofs.Constrained.Interior
import LocalOptimization.Proofs.Constrained.ProjectedGradient.Iterates
import LocalOptimization.Proofs.Constrained.ProjectedGradient.Stationarity
import LocalOptimization.Proofs.Constrained.Replay
import LocalOptimization.Proofs.Constrained.ZeroMultipliers
import LocalOptimization.Proofs.Curvature.Hereditary
import LocalOptimization.Proofs.Curvature.Lbfgs
import LocalOptimization.Proofs.Curvature.LeastChange
import LocalOptimization.Proofs.Difference.Derivative
import LocalOptimization.Proofs.LineSearch.Backtracking
import LocalOptimization.Proofs.LineSearch.Bisection
import LocalOptimization.Proofs.Observer.Stall
import LocalOptimization.Proofs.Procedure.Budget
import LocalOptimization.Proofs.Procedure.Finiteness
import LocalOptimization.Proofs.Procedure.HistoryLimit
import LocalOptimization.Proofs.Procedure.Replay
import LocalOptimization.Proofs.Procedure.Stopping
import LocalOptimization.Proofs.QuasiNewton.FiniteGradients
import LocalOptimization.Proofs.QuasiNewton.GivingUp
import LocalOptimization.Proofs.QuasiNewton.Pairs
import LocalOptimization.Proofs.TrustRegion.AnalyticHessian
import LocalOptimization.Proofs.TrustRegion.Conjugacy
import LocalOptimization.Proofs.TrustRegion.Dogleg
import LocalOptimization.Proofs.TrustRegion.Rejection
import LocalOptimization.Proofs.TrustRegion.Termination
