import Formulary.Calculator.Precedence
import Formulary.Document.Writing
import Formulary.Main
import Formulary.Text.Comment
import Formulary.Proofs.Calculator.Evaluation
import Formulary.Proofs.Reader.Completeness
import Formulary.Proofs.Reader.Failure
import Formulary.Proofs.Reader.Truncation
import Formulary.Proofs.Reader.Balance
import Formulary.Proofs.Reader.Quoting
import Formulary.Proofs.Tree.Invariance
import Formulary.Proofs.Calculator.Congruence
import Formulary.Proofs.Calculator.Registration
import Formulary.Proofs.Calculator.Nesting
import Formulary.Proofs.Calculator.Failure
import Formulary.Proofs.Layout.Unambiguous
import Formulary.Proofs.Tree.Lines
import Formulary.Proofs.Calculator.Rendering
import Formulary.Proofs.Reader.Listing
import Formulary.Proofs.Text.Segments
import Formulary.Proofs.Reader.Operators
import Formulary.Proofs.Tree.Paths
import Formulary.Proofs.Value.Order
import Formulary.Proofs.Library.Members
import Formulary.Proofs.Library.Dispatch
import Formulary.Proofs.Library.Comparison
import Formulary.Proofs.Tree.Preorder
import Formulary.Proofs.Reader.Caret
import Formulary.Proofs.Calendar.Chronology
import Formulary.Proofs.Calendar.Text
import Formulary.Proofs.Value.Whole
import Formulary.Proofs.Calculator.Naming
