import GoTree.Store.Record
import GoTree.MethodSet.Command
import GoTree.Main
import GoTree.Proofs.Store.Growth
import GoTree.Proofs.Store.Paths
import GoTree.Proofs.Store.Acyclic
import GoTree.Proofs.Tree.Arrangement
import GoTree.Proofs.Tree.Unfolding
import GoTree.Proofs.Text.Quoting
import GoTree.Proofs.Tree.Decoding
import GoTree.Proofs.Tree.Openings
import GoTree.Proofs.Tree.Alike
import GoTree.Proofs.Copy.Composition
import GoTree.Proofs.Copy.Steps
import GoTree.Proofs.Copy.Success
import GoTree.Proofs.Copy.Content
import GoTree.Proofs.Copy.Isolation
import GoTree.Proofs.Store.Words
import GoTree.Proofs.Store.Operations
import GoTree.Proofs.Copy.Checks
import GoTree.Proofs.Copy.Outcome
import GoTree.Proofs.Copy.Dangling
import GoTree.Proofs.Copy.Lockstep
import GoTree.Proofs.Copy.WellFormed
import GoTree.Proofs.Walk.Occurrences
import GoTree.Proofs.Walk.Selection
import GoTree.Proofs.Walk.Printed
import GoTree.Proofs.Store.BottomUp
import GoTree.Proofs.Copy.BottomUp
import GoTree.Proofs.Copy.Termination
import GoTree.Proofs.Store.Traversals
import GoTree.Proofs.Position.Lines
import GoTree.Proofs.Position.LineScan
import GoTree.Proofs.Position.Offsets
import GoTree.Proofs.Position.WordLimits
import GoTree.Proofs.Text.Numerals
import GoTree.Proofs.Text.Blanks
import GoTree.Proofs.Position.Reading
import GoTree.Proofs.Locate.Scan
import GoTree.Proofs.Locate.SourceOrder
import GoTree.Proofs.Locate.Layout
import GoTree.Proofs.Locate.Copies
import GoTree.Proofs.Interner.LinearSearch
import GoTree.Proofs.Copy.Effects
import GoTree.Proofs.Copy.Accounts
import GoTree.Proofs.Copy.Interning
import GoTree.Proofs.Copy.Packages
import GoTree.Proofs.Store.Packages
