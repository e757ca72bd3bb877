import Kitting.Main
import Kitting.Proofs.Command.Alignment
import Kitting.Proofs.Command.Corruption
import Kitting.Proofs.Command.Frames
import Kitting.Proofs.Command.Results
import Kitting.Proofs.Command.Tallies
import Kitting.Proofs.Containment
import Kitting.Proofs.Effects
import Kitting.Proofs.Files
import Kitting.Proofs.Formula.Brackets
import Kitting.Proofs.Formula.Catalog
import Kitting.Proofs.Formula.Laboratory
import Kitting.Proofs.Formula.LetterCase
import Kitting.Proofs.Formula.Margins
import Kitting.Proofs.Formula.Scanning
import Kitting.Proofs.Fulfilment.Manifest
import Kitting.Proofs.Fulfilment.Reordering
import Kitting.Proofs.Fulfilment.Report
import Kitting.Proofs.Identifiers
import Kitting.Proofs.Json.Number
import Kitting.Proofs.Json.Reader
import Kitting.Proofs.Json.RoundTrip
import Kitting.Proofs.Knowledge.Loading
import Kitting.Proofs.Knowledge.Recognition
import Kitting.Proofs.Matching.Coherence
import Kitting.Proofs.Matching.Glossary
import Kitting.Proofs.Matching.Order
import Kitting.Proofs.Matching.Reordering
import Kitting.Proofs.Matching.Subsumption
import Kitting.Proofs.Matching.Tiers
import Kitting.Proofs.Number.Bounds
import Kitting.Proofs.Number.Overflow
import Kitting.Proofs.Order.Fences
import Kitting.Proofs.Order.Merging
import Kitting.Proofs.Order.Payloads
import Kitting.Proofs.Paths
import Kitting.Proofs.Selection.Groups
import Kitting.Proofs.Selection.Picks
import Kitting.Proofs.Selection.Priority
import Kitting.Proofs.Selection.Toggling
import Kitting.Proofs.Selection.Validation
import Kitting.Proofs.Sheet.Catalog
import Kitting.Proofs.Sheet.Cells
import Kitting.Proofs.Sheet.Layout
import Kitting.Proofs.Solver.Caps
import Kitting.Proofs.Solver.Closure
import Kitting.Proofs.Solver.Reordering
import Kitting.Proofs.Sorting
import Kitting.Proofs.Synthesis.Answers
import Kitting.Proofs.Synthesis.Attribution
import Kitting.Proofs.Synthesis.Clusters
import Kitting.Proofs.Synthesis.Deployment
import Kitting.Proofs.Synthesis.Join
import Kitting.Proofs.Synthesis.Overflow
import Kitting.Proofs.Synthesis.Pending
import Kitting.Proofs.Synthesis.Progress
import Kitting.Proofs.Synthesis.Resumption
import Kitting.Proofs.Synthesis.Rounds
import Kitting.Proofs.Synthesis.Sheet
import Kitting.Proofs.Text.Utf8
import Kitting.Provider
