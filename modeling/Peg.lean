import Peg.CharClass
import Peg.Forward
import Peg.Input
import Peg.Matching
import Peg.Matching.Bound
import Peg.NodeTree
import Peg.Parse
import Peg.Proofs.Adequacy
import Peg.Proofs.Balance
import Peg.Proofs.Coherence
import Peg.Proofs.Commitment
import Peg.Proofs.Context
import Peg.Proofs.Course
import Peg.Proofs.Diagnostics
import Peg.Proofs.Forest
import Peg.Proofs.Growth
import Peg.Proofs.HardFailure
import Peg.Proofs.History
import Peg.Proofs.Log
import Peg.Proofs.Meaning
import Peg.Proofs.Nesting
import Peg.Proofs.OpenNodes
import Peg.Proofs.Preorder
import Peg.Proofs.Reading
import Peg.Proofs.Recording
import Peg.Proofs.Refinement
import Peg.Proofs.Rewriting
import Peg.Proofs.Shadow
import Peg.Proofs.Trace
import Peg.Proofs.Transparency
import Peg.Proofs.TreesAgree
import Peg.Proofs.Undoing
import Peg.Proofs.WellNested
import Peg.Sample.Grammar
import Peg.Sample.Suite
import Peg.Script.Cursor
import Peg.Script.Forward
import Peg.Script.Slots
import Peg.Script.Tree
import Peg.Trial
import Peg.Proofs.Begun
import Peg.Proofs.Invariant
import Peg.Proofs.Boundaries
import Peg.Proofs.Termination
import Peg.Proofs.Reuse
import Peg.Proofs.Lifecycle
import Peg.Proofs.Scanning
import Peg.Proofs.Values
import Peg.Proofs.Entries
import Peg.Proofs.Rewinding
import Peg.Proofs.Children
import Peg.Proofs.Repetition
import Peg.Proofs.Storing
import Peg.Proofs.Upshot
import Peg.Proofs.Likeness
import Peg.Proofs.Equations
import Peg.Proofs.Searching
import Peg.Proofs.Lookahead
import Peg.Proofs.Locating
import Peg.Proofs.Bounded
import Peg.Proofs.Progress
import Peg.Proofs.Spelling
