import LargeNeighbourhood.Acceptance.Criterion
import LargeNeighbourhood.Console.Text
import LargeNeighbourhood.Fault.Message
import LargeNeighbourhood.Knapsack.Demo
import LargeNeighbourhood.Knapsack.Operators
import LargeNeighbourhood.Main
import LargeNeighbourhood.Proofs.Acceptance.Degenerate
import LargeNeighbourhood.Proofs.Acceptance.Downward
import LargeNeighbourhood.Proofs.Acceptance.Fit
import LargeNeighbourhood.Proofs.Acceptance.Level
import LargeNeighbourhood.Proofs.Acceptance.NoWorse
import LargeNeighbourhood.Proofs.Coupling.Views
import LargeNeighbourhood.Proofs.Knapsack.Removal
import LargeNeighbourhood.Proofs.Knapsack.Search
import LargeNeighbourhood.Proofs.Random.Integers
import LargeNeighbourhood.Proofs.Random.Refusals
import LargeNeighbourhood.Proofs.Random.Weighted
import LargeNeighbourhood.Proofs.Registry.History
import LargeNeighbourhood.Proofs.Search.BestSoFar
import LargeNeighbourhood.Proofs.Search.Climbing
import LargeNeighbourhood.Proofs.Search.Deviation
import LargeNeighbourhood.Proofs.Search.Ledger
import LargeNeighbourhood.Proofs.Search.Length
import LargeNeighbourhood.Proofs.Search.Permitted
import LargeNeighbourhood.Proofs.Search.Refusal
import LargeNeighbourhood.Proofs.Search.Resumption
import LargeNeighbourhood.Proofs.Search.Seeds
import LargeNeighbourhood.Proofs.Search.Verbosity
import LargeNeighbourhood.Proofs.Selection.Arms
import LargeNeighbourhood.Proofs.Selection.Floor
import LargeNeighbourhood.Proofs.Selection.Segments
import LargeNeighbourhood.Proofs.Statistics
import LargeNeighbourhood.Proofs.Stopping.Sharing
import LargeNeighbourhood.Proofs.Validation
import LargeNeighbourhood.Random.Shuffle
import LargeNeighbourhood.Random.Weighted
import LargeNeighbourhood.Scalar.Binary64
import LargeNeighbourhood.Search.Run
import LargeNeighbourhood.Selection.Scheme
import LargeNeighbourhood.Stopping.Limit
import LargeNeighbourhood.Stopping.Rule
