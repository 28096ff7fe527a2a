import ExactArith.Journal.Operations
import ExactArith.Main
import ExactArith.Proofs.Expr.Reachability
import ExactArith.Proofs.Linear.Canonical
import ExactArith.Proofs.Linear.Linearity
import ExactArith.Proofs.Number.Numeral
import ExactArith.Proofs.Solver.Answer
import ExactArith.Proofs.Solver.FindModel
import ExactArith.Proofs.Solver.Redundancy
import ExactArith.Proofs.Solver.Scopes
import ExactArith.Proofs.Translation.Calls
import ExactArith.Proofs.Translation.Meaning
import ExactArith.Proofs.Tree.Recursion
import ExactArith.Proofs.Number.Writing
import ExactArith.Proofs.Expr.Rendering
import ExactArith.Proofs.Expr.Relevance
import ExactArith.Proofs.Expr.Nesting
import ExactArith.Proofs.Tableau.Reachable
import ExactArith.Proofs.Renaming.Forms
import ExactArith.Proofs.Renaming.Tableaux
import ExactArith.Proofs.Renaming.Sessions
import ExactArith.Proofs.Expr.Resolution
import ExactArith.Proofs.Tableau.Exactness
import ExactArith.Proofs.Tableau.Strictness
