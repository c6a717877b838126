import BinaryPoint.Main
import BinaryPoint.Session.Action
import BinaryPoint.Proofs.HalfUp
import BinaryPoint.Proofs.Binary64.Nearest
import BinaryPoint.Proofs.Binary64.Logarithm
import BinaryPoint.Proofs.Outcome
import BinaryPoint.Proofs.Range
import BinaryPoint.Proofs.Inference.Threshold
import BinaryPoint.Proofs.Inference.Width
import BinaryPoint.Proofs.Inference.Binding
import BinaryPoint.Proofs.Fixed
import BinaryPoint.Proofs.Graph.Evaluation
import BinaryPoint.Proofs.Graph.Declaration
import BinaryPoint.Proofs.Graph.Accuracy
import BinaryPoint.Proofs.Graph.Places
import BinaryPoint.Proofs.Graph.Reference
import BinaryPoint.Proofs.Binder.History
import BinaryPoint.Proofs.Program.Recovery
import BinaryPoint.Proofs.Program.Totality
import BinaryPoint.Proofs.Graph.Reporting
import BinaryPoint.Proofs.Program.Trees
import BinaryPoint.Proofs.CommandLine.Compile
import BinaryPoint.Proofs.Cache.Requests
import BinaryPoint.Proofs.CommandLine.CheckRegistry
import BinaryPoint.Proofs.CommandLine.Usable
import BinaryPoint.Proofs.Session.Reachable
import BinaryPoint.Proofs.Inference.Outcomes
import BinaryPoint.Proofs.Inference.Join
import BinaryPoint.Proofs.Program.Account
import BinaryPoint.Proofs.Binder.RoundTrips
import BinaryPoint.Proofs.Arithmetic
import BinaryPoint.Proofs.Inference.Again
import BinaryPoint.Proofs.Graph.Reinference
import BinaryPoint.Proofs.Expr.Finite
import BinaryPoint.Proofs.Order
import BinaryPoint.Proofs.Binder.Restoring
import BinaryPoint.Proofs.Session.Floats
import BinaryPoint.Proofs.Binary64.Monotone
import BinaryPoint.Proofs.Binary64.LogDigits
import BinaryPoint.Proofs.Inference.Magnitude
import BinaryPoint.Proofs.Binder.OutOfRange
import BinaryPoint.Proofs.Format.Key
import BinaryPoint.Proofs.Program.Positions
import BinaryPoint.Proofs.Program.Layout
import BinaryPoint.Proofs.Rounding
import BinaryPoint.Proofs.Graph.Resolution
import BinaryPoint.Proofs.Session.Slots
import BinaryPoint.Proofs.Program.Halting
