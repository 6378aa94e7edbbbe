import FeatureFlags.Flag.DecodeText
import FeatureFlags.Main
import FeatureFlags.Proofs.CommandLine.Verdicts
import FeatureFlags.Proofs.Document.Build
import FeatureFlags.Proofs.Document.Conformance
import FeatureFlags.Proofs.Document.Filtering
import FeatureFlags.Proofs.Document.Flags
import FeatureFlags.Proofs.Document.Inlining
import FeatureFlags.Proofs.Document.Isolation
import FeatureFlags.Proofs.Document.Order
import FeatureFlags.Proofs.Document.ReferenceFree
import FeatureFlags.Proofs.Document.Refusals
import FeatureFlags.Proofs.Document.Repetition
import FeatureFlags.Proofs.Document.Resolved
import FeatureFlags.Proofs.Document.RoundTrip
import FeatureFlags.Proofs.Document.Sections
import FeatureFlags.Proofs.Document.Totals
import FeatureFlags.Proofs.Files.Sharing
import FeatureFlags.Proofs.Lint.Agreement
import FeatureFlags.Proofs.Lint.Counts
import FeatureFlags.Proofs.Lint.Places
import FeatureFlags.Proofs.Lint.Problems
import FeatureFlags.Proofs.Lint.Unresolved
import FeatureFlags.Proofs.Lint.Unused
import FeatureFlags.Proofs.Lint.Verdict
import FeatureFlags.Proofs.Reference.Accounting
import FeatureFlags.Proofs.Reference.Between
import FeatureFlags.Proofs.Reference.Budget
import FeatureFlags.Proofs.Reference.Closed
import FeatureFlags.Proofs.Reference.Cycle
import FeatureFlags.Proofs.Reference.Growth
import FeatureFlags.Proofs.Reference.InUse
import FeatureFlags.Proofs.Reference.Ledger
import FeatureFlags.Proofs.Reference.Memory
import FeatureFlags.Proofs.Reference.Missing
import FeatureFlags.Proofs.Reference.Moments
import FeatureFlags.Proofs.Reference.Nesting
import FeatureFlags.Proofs.Reference.Overshoot
import FeatureFlags.Proofs.Reference.Positions
import FeatureFlags.Proofs.Reference.Refinement
import FeatureFlags.Proofs.Reference.Replacements
import FeatureFlags.Proofs.Reference.Resolvable
import FeatureFlags.Proofs.Reference.Resumption
import FeatureFlags.Proofs.Reference.Rounds
import FeatureFlags.Proofs.Reference.Success
import FeatureFlags.Proofs.Reference.Tallies
import FeatureFlags.Proofs.Reference.Worklist
import FeatureFlags.Proofs.Schema.Unrestricted
