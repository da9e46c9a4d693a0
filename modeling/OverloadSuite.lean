import OverloadSuite.Main
import OverloadSuite.Proofs.Catalog.WellFormed
import OverloadSuite.Proofs.Command.Traces
import OverloadSuite.Proofs.Document.RoundTrip
import OverloadSuite.Proofs.Literal.Consumption
import OverloadSuite.Proofs.Literal.Whole
import OverloadSuite.Proofs.Run.Append
import OverloadSuite.Proofs.Run.Extension
import OverloadSuite.Proofs.Run.Filtering
import OverloadSuite.Proofs.Run.Renumbering
import OverloadSuite.Proofs.Run.Words
import OverloadSuite.Proofs.Signature.Numerals
import OverloadSuite.Proofs.Signature.Places
import OverloadSuite.Proofs.Signature.Rewriting
import OverloadSuite.Proofs.Template
import OverloadSuite.Proofs.TestCase.Brackets
import OverloadSuite.Proofs.TestCase.Consumption
import OverloadSuite.Proofs.TestCase.Folded
import OverloadSuite.Proofs.TestCase.Scope
import OverloadSuite.Proofs.Workspace.Touches
import OverloadSuite.Workspace.Tree
