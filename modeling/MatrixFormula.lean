import MatrixFormula.Cursor
import MatrixFormula.Main
import MatrixFormula.Proofs.Formula.NumericView
import MatrixFormula.Proofs.Grid.Soundness
import MatrixFormula.Proofs.Markup.Front
import MatrixFormula.Proofs.Markup.Splitting
import MatrixFormula.Proofs.Formula.Places
import MatrixFormula.Proofs.Markup.Spelling
import MatrixFormula.Proofs.Markup.Verdict
import MatrixFormula.Proofs.Markup.Grammar
import MatrixFormula.Proofs.Markup.Layout
import MatrixFormula.Proofs.Formula.Acceptance
import MatrixFormula.Proofs.Markup.Agreement
import MatrixFormula.Proofs.Markup.Displayed
import MatrixFormula.Proofs.Markup.StandIn
import MatrixFormula.Proofs.Formula.Splitting
import MatrixFormula.Proofs.Markup.Juxtaposition
import MatrixFormula.Proofs.Formula.Sizes
import MatrixFormula.Proofs.Formula.SpacedRun
import MatrixFormula.Proofs.Formula.Inlining
import MatrixFormula.Proofs.Formula.Spacing
import MatrixFormula.Proofs.Formula.ProductSigns
import MatrixFormula.Proofs.Markup.Spacing
import MatrixFormula.Proofs.Markup.Regions
import MatrixFormula.Proofs.Formula.Operands
import MatrixFormula.Proofs.Session.Accounting
import MatrixFormula.Proofs.Formula.Fragments
import MatrixFormula.Proofs.Formula.Dependence
import MatrixFormula.Proofs.Markup.Dependence
import MatrixFormula.Proofs.Markup.Environments
import MatrixFormula.Proofs.Markup.Verbatim
import MatrixFormula.Proofs.Session.Saves
import MatrixFormula.Proofs.Session.Erasure
import MatrixFormula.Proofs.Session.Interview
import MatrixFormula.Proofs.Cursor.Tokens
import MatrixFormula.Proofs.Cursor.Steps
import MatrixFormula.Proofs.Cell.Negation
import MatrixFormula.Proofs.Markup.Origins
import MatrixFormula.Proofs.Markup.Commands
import MatrixFormula.Proofs.Markup.Brackets
import MatrixFormula.Proofs.Session.Requests
import MatrixFormula.Proofs.Grid.Transpose
import MatrixFormula.Proofs.Descent.Total
import MatrixFormula.Proofs.Decimal.Canonical
import MatrixFormula.Proofs.Grid.Markup
import MatrixFormula.Proofs.Markup.Names
