import ExprLang.CommandLine
import ExprLang.Dialogue.Script
import ExprLang.Main
import ExprLang.Ty.Substitution.Equations
import ExprLang.Value.Outline
import ExprLang.Proofs.Typing.Judgment
import ExprLang.Proofs.Evaluation.Ensures
import ExprLang.Proofs.Typing.Preservation
import ExprLang.Proofs.Typing.Checked
import ExprLang.Proofs.Ty.Structure
import ExprLang.Proofs.Parsing.Leaves
import ExprLang.Proofs.Parsing.Precedence
import ExprLang.Proofs.Parsing.Yield
import ExprLang.Proofs.Places.Checking
import ExprLang.Proofs.Places.Diagnostics
import ExprLang.Proofs.Ty.Reading
import ExprLang.Proofs.Typing.Inhabitant
import ExprLang.Proofs.Typing.Monomorphic
import ExprLang.Proofs.Typing.Soundness
import ExprLang.Proofs.Evaluation.Transparency
import ExprLang.Proofs.Printing.RoundTrip
import ExprLang.Proofs.Typing.Generics
import ExprLang.Proofs.Typing.Acceptance
import ExprLang.Proofs.Typing.Binding
import ExprLang.Proofs.Evaluation.Coincide
import ExprLang.Proofs.Evaluation.Subprogram
import ExprLang.Proofs.Evaluation.Cycles
import ExprLang.Proofs.Scanning.LongestMatch
import ExprLang.Proofs.Scanning.LineByLine
import ExprLang.Proofs.Parsing.Succession
import ExprLang.Proofs.Evaluation.Total
import ExprLang.Proofs.Evaluation.Termination
import ExprLang.Proofs.Ty.Binders
import ExprLang.Proofs.Ty.Hygiene
import ExprLang.Proofs.Ty.Nameless
import ExprLang.Proofs.Typing.Resolution
import ExprLang.Proofs.Typing.Instantiation
import ExprLang.Proofs.Typing.Paths
import ExprLang.Proofs.Evaluation.Exactness
import ExprLang.Proofs.Evaluation.Discipline
import ExprLang.Proofs.Evaluation.History
import ExprLang.Proofs.Scanning.Leftmost
import ExprLang.Proofs.Parsing.Grouping
import ExprLang.Proofs.Ty.Termination
import ExprLang.Proofs.Ty.Congruence
import ExprLang.Proofs.Evaluation.HostText
import ExprLang.Proofs.Typing.Mismatch
import ExprLang.Proofs.Parsing.Progress
import ExprLang.Proofs.Ty.Equality
