import CorpusStats.Allocator
import CorpusStats.Batch.Classes
import CorpusStats.Batch.Locator
import CorpusStats.Batch.Parses
import CorpusStats.Batch.Sentences
import CorpusStats.Bounded
import CorpusStats.Cell
import CorpusStats.Config.Basic
import CorpusStats.Config.Environment
import CorpusStats.Config.Text
import CorpusStats.Disjunct
import CorpusStats.Engine.Basic
import CorpusStats.Engine.Call
import CorpusStats.Error
import CorpusStats.Index
import CorpusStats.Json.Token
import CorpusStats.Json.Value
import CorpusStats.Key
import CorpusStats.Pool
import CorpusStats.Proofs.Batch.Lists
import CorpusStats.Proofs.Batch.Locate
import CorpusStats.Proofs.Batch.Positions
import CorpusStats.Proofs.Batch.Reads
import CorpusStats.Proofs.Batch.RoundTrip
import CorpusStats.Proofs.Batch.Sections
import CorpusStats.Proofs.Batch.Window
import CorpusStats.Proofs.Checks
import CorpusStats.Proofs.Collisions
import CorpusStats.Proofs.Comparing
import CorpusStats.Proofs.Config.Saved
import CorpusStats.Proofs.Disjunct
import CorpusStats.Proofs.Emptied
import CorpusStats.Proofs.Engine.Admission
import CorpusStats.Proofs.Engine.Arena
import CorpusStats.Proofs.Engine.Balance
import CorpusStats.Proofs.Engine.BatchFailures
import CorpusStats.Proofs.Engine.Batches
import CorpusStats.Proofs.Engine.Coherence
import CorpusStats.Proofs.Engine.Cosines
import CorpusStats.Proofs.Engine.EdgeOrder
import CorpusStats.Proofs.Engine.Extraction
import CorpusStats.Proofs.Engine.Filters
import CorpusStats.Proofs.Engine.Interrupted
import CorpusStats.Proofs.Engine.Logs
import CorpusStats.Proofs.Engine.Lookups
import CorpusStats.Proofs.Engine.Overflow
import CorpusStats.Proofs.Engine.Pairs
import CorpusStats.Proofs.Engine.Parts
import CorpusStats.Proofs.Engine.Passes
import CorpusStats.Proofs.Engine.Plans
import CorpusStats.Proofs.Engine.Published
import CorpusStats.Proofs.Engine.Refolding
import CorpusStats.Proofs.Engine.Refusals
import CorpusStats.Proofs.Engine.Reordering
import CorpusStats.Proofs.Engine.Reset
import CorpusStats.Proofs.Engine.Room
import CorpusStats.Proofs.Engine.Scores
import CorpusStats.Proofs.Engine.Sections
import CorpusStats.Proofs.Engine.Sizes
import CorpusStats.Proofs.Engine.Splitting
import CorpusStats.Proofs.Engine.Start
import CorpusStats.Proofs.Engine.TwoSteps
import CorpusStats.Proofs.Engine.Windows
import CorpusStats.Proofs.Engine.Words
import CorpusStats.Proofs.Exact
import CorpusStats.Proofs.Exhaustion
import CorpusStats.Proofs.Extraction
import CorpusStats.Proofs.Failing
import CorpusStats.Proofs.Index.Counting
import CorpusStats.Proofs.Index.Dict
import CorpusStats.Proofs.Index.Probe
import CorpusStats.Proofs.Index.Write
import CorpusStats.Proofs.Json.Printed
import CorpusStats.Proofs.Json.Scanned
import CorpusStats.Proofs.Key
import CorpusStats.Proofs.Keyed
import CorpusStats.Proofs.Lift
import CorpusStats.Proofs.Logging
import CorpusStats.Proofs.Loops
import CorpusStats.Proofs.Numbering
import CorpusStats.Proofs.Plan
import CorpusStats.Proofs.Pool
import CorpusStats.Proofs.Published
import CorpusStats.Proofs.Refusing
import CorpusStats.Proofs.Reordering
import CorpusStats.Proofs.Room
import CorpusStats.Proofs.SectionRequests
import CorpusStats.Proofs.Serving
import CorpusStats.Proofs.Similarity.Angle
import CorpusStats.Proofs.Similarity.Chains
import CorpusStats.Proofs.Similarity.Meeting
import CorpusStats.Proofs.Similarity.Norms
import CorpusStats.Proofs.Similarity.Pass
import CorpusStats.Proofs.Similarity.Products
import CorpusStats.Proofs.Similarity.Room
import CorpusStats.Proofs.Similarity.Walks
import CorpusStats.Proofs.Stage
import CorpusStats.Proofs.Tally.Arena
import CorpusStats.Proofs.Tally.Asking
import CorpusStats.Proofs.Tally.Balance
import CorpusStats.Proofs.Tally.Clean
import CorpusStats.Proofs.Tally.Coherent
import CorpusStats.Proofs.Tally.Collected
import CorpusStats.Proofs.Tally.Filled
import CorpusStats.Proofs.Tally.Fold
import CorpusStats.Proofs.Tally.Indexed
import CorpusStats.Proofs.Tally.Marginal
import CorpusStats.Proofs.Tally.Merging
import CorpusStats.Proofs.Tally.Observed
import CorpusStats.Proofs.Tally.Observing
import CorpusStats.Proofs.Tally.PairMap
import CorpusStats.Proofs.Tally.Pairs
import CorpusStats.Proofs.Tally.Refilled
import CorpusStats.Proofs.Tally.Refolding
import CorpusStats.Proofs.Tally.Reordering
import CorpusStats.Proofs.Tally.Resolved
import CorpusStats.Proofs.Tally.Sweeps
import CorpusStats.Proofs.Tally.Totals
import CorpusStats.Proofs.Tally.Tracks
import CorpusStats.Proofs.Tally.Words
import CorpusStats.Proofs.Visits
import CorpusStats.Row
import CorpusStats.Row.Layout
import CorpusStats.Sections
import CorpusStats.Similarity
import CorpusStats.Stage
import CorpusStats.Store
import CorpusStats.Tally.Basic
import CorpusStats.Tally.Folding
import CorpusStats.Tally.Score
import CorpusStats.Tally.Window
import CorpusStats.Weight
