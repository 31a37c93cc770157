import ImportBlock.Main
import ImportBlock.Editor.Basic
import ImportBlock.Host.Workspace
import ImportBlock.Proofs.Format.Idempotence
import ImportBlock.Proofs.Format.Preservation
import ImportBlock.Proofs.Format.WholeDocument
import ImportBlock.Proofs.Format.LineBreaks
import ImportBlock.Proofs.Format.Modes
import ImportBlock.Proofs.Declaration.Prune
import ImportBlock.Proofs.Declaration.Grouping
import ImportBlock.Proofs.Region.Grammar
import ImportBlock.Proofs.Region.Leading
import ImportBlock.Proofs.Declaration.Listing
import ImportBlock.Proofs.Format.Unfinished
import ImportBlock.Proofs.Layout.Breaks
import ImportBlock.Proofs.Format.Comments
import ImportBlock.Proofs.Format.Distinct
import ImportBlock.Proofs.Region.Tracking
import ImportBlock.Proofs.Session.Update
import ImportBlock.Proofs.Session.Nesting
import ImportBlock.Proofs.CommandLine.Check
import ImportBlock.Proofs.Format.Reordered
import ImportBlock.Proofs.Host.Applied
import ImportBlock.Proofs.Host.Barren
import ImportBlock.Proofs.Host.History
import ImportBlock.Proofs.Statement.Layout
import ImportBlock.Proofs.Layout.ReadBack
import ImportBlock.Proofs.CommandLine.Effective
import ImportBlock.Proofs.SortOrder.Stable
import ImportBlock.Proofs.Layout.Separators
import ImportBlock.Proofs.Region.Upto
import ImportBlock.Proofs.Format.Ending
