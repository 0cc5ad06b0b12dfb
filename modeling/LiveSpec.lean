import LiveSpec.Main
import LiveSpec.Proofs.Tree.Nodes
import LiveSpec.Proofs.Tree.Shape
import LiveSpec.Proofs.Tree.Edits
import LiveSpec.Proofs.Tree.Release
import LiveSpec.Proofs.Tree.Onward
import LiveSpec.Proofs.Table.NewRow
import LiveSpec.Proofs.Tree.Reading
import LiveSpec.Proofs.Run.Deeds
import LiveSpec.Proofs.Run.Alone
import LiveSpec.Proofs.Phases.Order
import LiveSpec.Proofs.Table.Layout
import LiveSpec.Proofs.Run.Onward
import LiveSpec.Proofs.Table.Matching
import LiveSpec.Proofs.Run.Work
import LiveSpec.Proofs.Table.Dealing
import LiveSpec.Proofs.Table.Exact
import LiveSpec.Proofs.Table.Sparing
import LiveSpec.Proofs.Phases.Driven
import LiveSpec.Proofs.Outcome.Burying
import LiveSpec.Proofs.Graph.Structure
import LiveSpec.Proofs.Listening.Agreement
import LiveSpec.Proofs.Listening.Refusal
import LiveSpec.Proofs.Expr.Printing
import LiveSpec.Proofs.Nesting.Limit
import LiveSpec.Proofs.Outcome.Accounting
import LiveSpec.Proofs.Graph.Without
import LiveSpec.Proofs.Isolation.Deletion
import LiveSpec.Proofs.Isolation.Errors
import LiveSpec.Proofs.Resource.Canonical
import LiveSpec.Proofs.Resource.Links
import LiveSpec.Proofs.Resource.Places
import LiveSpec.Proofs.Expr.Derivation
import LiveSpec.Proofs.Tree.History
import LiveSpec.Proofs.Tree.Building
import LiveSpec.Proofs.Outcome.Erasing
import LiveSpec.Proofs.Table.Reasserting
import LiveSpec.Proofs.Graph.Predicting
import LiveSpec.Proofs.Run.Inert
import LiveSpec.Proofs.Extension.Assembly
import LiveSpec.Proofs.Store.Reported
import LiveSpec.Proofs.Table.MissingRows
import LiveSpec.Proofs.Table.Executing
import LiveSpec.Proofs.Evaluation.Assigning
import LiveSpec.Proofs.Table.LoopVariable
import LiveSpec.Proofs.Value.Integers
import LiveSpec.Proofs.Outcome.Failing
import LiveSpec.Proofs.Expr.Names
import LiveSpec.Proofs.Evaluation.Absence
import LiveSpec.Proofs.Tree.Filled
import LiveSpec.Proofs.Run.Echoing
import LiveSpec.Proofs.Tree.Staleness
import LiveSpec.Proofs.Extension.Registering
import LiveSpec.Proofs.Run.Installed
import LiveSpec.Proofs.Outcome.Undisturbed
import LiveSpec.Proofs.Graph.Renaming
import LiveSpec.Proofs.Store.Settling
import LiveSpec.Proofs.Run.Carrying
import LiveSpec.Proofs.Tree.Walking
import LiveSpec.Proofs.Tree.ClassList
