import Calculator.Agreement
import Calculator.Expr.Listing
import Calculator.Function.Aggregate
import Calculator.Main
import Calculator.Proofs.Binary64.Ranks
import Calculator.Proofs.Binary64.Nearest
import Calculator.Proofs.Decimal.Value
import Calculator.Proofs.Decimal.Shortest
import Calculator.Proofs.Decimal.Digits
import Calculator.Proofs.Decimal.Layout
import Calculator.Proofs.Evaluation.Walk
import Calculator.Proofs.Evaluation.Correspondence
import Calculator.Proofs.Evaluation.NameErrors
import Calculator.Proofs.Evaluation.Readback
import Calculator.Proofs.Evaluation.Loosening
import Calculator.Proofs.Expr.Grammar
import Calculator.Proofs.Expr.Run
import Calculator.Proofs.Expr.Derivation
import Calculator.Proofs.Expr.Recognition
import Calculator.Proofs.Expr.Accepted
import Calculator.Proofs.Expr.Descent
import Calculator.Proofs.Expr.NestingLimit
import Calculator.Proofs.Expr.ReadingOrder
import Calculator.Proofs.Expr.Correspondence
import Calculator.Proofs.Expr.Compaction
import Calculator.Proofs.Token.Scanning
import Calculator.Proofs.Token.Tiling
import Calculator.Proofs.Token.Words
import Calculator.Proofs.Token.Faithful
import Calculator.Proofs.Token.Spacing
import Calculator.Proofs.Token.Reread
import Calculator.Proofs.Token.Loosening
import Calculator.Proofs.Expr.Context
import Calculator.Proofs.Expr.Isolation
import Calculator.Proofs.Evaluation.Isolation
import Calculator.Proofs.Expr.Printing
import Calculator.Proofs.Expr.Neighbours
import Calculator.Proofs.Expr.Spacing
import Calculator.Proofs.Binary64.Traps
import Calculator.Proofs.Evaluation.Traps
import Calculator.Proofs.Function.Growth
import Calculator.Proofs.Evaluation.Conservation
import Calculator.Proofs.Evaluation.Culprit
import Calculator.Proofs.Report.Caret
import Calculator.Proofs.Evaluation.Spelling
import Calculator.Proofs.Binary64.Distance
import Calculator.Proofs.Binary64.Value
import Calculator.Proofs.Binary64.Rounded
import Calculator.Proofs.Binary64.Remainder
import Calculator.Proofs.Binary64.Grid
import Calculator.Proofs.Binary64.Places
import Calculator.Proofs.Binary64.Quotient
import Calculator.Proofs.Binary64.Power
import Calculator.Proofs.Binary64.Completion
import Calculator.Proofs.Decimal.Literals
import Calculator.Proofs.Evaluation.Literals
import Calculator.Proofs.Token.Munch
import Calculator.Proofs.Trace.Calls
import Calculator.Proofs.Trace.Reading
import Calculator.Proofs.Trace.Session
import Calculator.Proofs.Trace.Lookahead
import Calculator.Proofs.Trace.Termination
