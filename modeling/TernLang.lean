import TernLang.Main
import TernLang.Scope.Tree
import TernLang.Proofs.Command.Emission
import TernLang.Proofs.Eval.Progress
import TernLang.Proofs.Eval.Termination
import TernLang.Proofs.Syntax.RoundTrip
import TernLang.Proofs.Ast.Twin
import TernLang.Proofs.Value.Twin
import TernLang.Proofs.Value.Operations
import TernLang.Proofs.Eval.Pairing
import TernLang.Proofs.Eval.Parallel
import TernLang.Proofs.Eval.Tracing
import TernLang.Proofs.Eval.Depth
import TernLang.Proofs.Syntax.Cuts
import TernLang.Proofs.Syntax.Seam
import TernLang.Proofs.Syntax.Mirror
import TernLang.Proofs.Syntax.Joined
import TernLang.Proofs.Eval.Pieces
import TernLang.Proofs.Syntax.LexicalGrammar
import TernLang.Proofs.Syntax.Nesting
import TernLang.Proofs.Value.Refusals
import TernLang.Proofs.Eval.Watched
import TernLang.Proofs.Eval.Blame
import TernLang.Proofs.Eval.ErrorPlaces
import TernLang.Proofs.Syntax.ExpressionText
import TernLang.Proofs.Eval.ReadBack
import TernLang.Proofs.Eval.Layout
import TernLang.Proofs.Scope.Moves
import TernLang.Proofs.Eval.Course
import TernLang.Proofs.Eval.Scoping
import TernLang.Proofs.Eval.Constants
import TernLang.Proofs.Eval.Framing
import TernLang.Proofs.Eval.EmptyScopes
import TernLang.Proofs.Scope.History
import TernLang.Proofs.Ast.Defects
import TernLang.Proofs.Eval.Words
import TernLang.Proofs.Eval.Renaming
import TernLang.Proofs.Command.Endings
import TernLang.Proofs.Eval.Interchangeable
import TernLang.Proofs.Value.Equivalence
import TernLang.Proofs.Eval.Destructuring
import TernLang.Proofs.Eval.Overflow
import TernLang.Proofs.Value.Elementwise
import TernLang.Proofs.Value.IntegerText
import TernLang.Proofs.Eval.Gate
import TernLang.Proofs.Text.Cutting
import TernLang.Proofs.Eval.Sizes
import TernLang.Proofs.Syntax.Arrival
import TernLang.Proofs.Eval.Reuse
