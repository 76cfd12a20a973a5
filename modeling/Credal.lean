import Credal.CommandLine.Arguments
import Credal.CommandLine.Files
import Credal.CommandLine.Report
import Credal.CommandLine.Run
import Credal.Distinct
import Credal.Evaluation.Arithmetic
import Credal.Evaluation.Demand
import Credal.Evaluation.Evaluate
import Credal.Evaluation.Outcome
import Credal.Exact.Algebraic
import Credal.Exact.Interval
import Credal.Exact.Enclosed
import Credal.Exact.Number
import Credal.Generate.Random
import Credal.Generate.Shape
import Credal.Generate.Trees
import Credal.Json.Basic
import Credal.Json.Display
import Credal.Json.Reader
import Credal.Json.Writer
import Credal.Language.Constraint
import Credal.Language.Infix
import Credal.Language.RealExpr
import Credal.Language.Sentence
import Credal.Language.Tagged
import Credal.Language.Tree
import Credal.Language.Variables
import Credal.Main
import Credal.Model.Decode
import Credal.Model.Exact
import Credal.Model.Value
import Credal.Number.Amount
import Credal.Number.Double
import Credal.Number.Integer
import Credal.Number.Layout
import Credal.Number.Numeral
import Credal.Number.Power
import Credal.Number.Rounding
import Credal.Number.Shortest
import Credal.Polynomial.Basic
import Credal.Polynomial.Locate
import Credal.Polynomial.Sturm
import Credal.Proofs.Evaluation.Answered
import Credal.Proofs.Evaluation.Classified
import Credal.Proofs.Evaluation.Complete
import Credal.Proofs.Evaluation.Enlarged
import Credal.Proofs.Evaluation.Followed
import Credal.Proofs.Evaluation.Guarded
import Credal.Proofs.Evaluation.InStep
import Credal.Proofs.Evaluation.Joined
import Credal.Proofs.Evaluation.Probability
import Credal.Proofs.Evaluation.Rationals
import Credal.Proofs.Evaluation.Regular
import Credal.Proofs.Evaluation.Tracked
import Credal.Proofs.Evaluation.Translated
import Credal.Proofs.Exact.Approximated
import Credal.Proofs.Exact.Value
import Credal.Proofs.Generate.Closed
import Credal.Proofs.Generate.Depth
import Credal.Proofs.Generate.Endings
import Credal.Proofs.Language.Documents
import Credal.Proofs.Language.Expressions
import Credal.Proofs.Language.Operands
import Credal.Proofs.Language.Places
import Credal.Proofs.Language.RoundTrip
import Credal.Proofs.Language.Sentences
import Credal.Proofs.Language.Unambiguous
import Credal.Proofs.Model.Decoded
import Credal.Proofs.Model.Denoted
import Credal.Proofs.Model.RootObjects
import Credal.Proofs.Model.RoundTrip
import Credal.Proofs.Model.Shortened
import Credal.Proofs.Model.Shown
import Credal.Proofs.Number.Comparisons
import Credal.Proofs.Number.Digits
import Credal.Proofs.Number.Doubles
import Credal.Proofs.Number.Integral
import Credal.Proofs.Number.Layouts
import Credal.Proofs.Number.Nearest
import Credal.Proofs.Number.Numerals
import Credal.Proofs.Number.Operations
import Credal.Proofs.Number.Rounded
import Credal.Proofs.Number.Scaling
import Credal.Proofs.Number.Shortest
import Credal.Proofs.Number.Texts
import Credal.Proofs.Number.Units
import Credal.Proofs.Polynomial.Coefficients
import Credal.Proofs.Polynomial.Division
import Credal.Proofs.Polynomial.Rings
import Credal.Proofs.Polynomial.Roots
import Credal.Proofs.Polynomial.Signs
import Credal.Proofs.Polynomial.Squarefree
import Credal.Proofs.Polynomial.Sturm
import Credal.Proofs.Race.Invariant
import Credal.Proofs.Race.Moves
import Credal.Proofs.Race.Safety
import Credal.Proofs.SExpr.Grammar
import Credal.Proofs.SExpr.Tokens
import Credal.Proofs.Settings.Reloads
import Credal.Proofs.Smt.Literals
import Credal.Proofs.Smt.Meaning
import Credal.Proofs.Smt.Semantics
import Credal.Proofs.Solver.Checked
import Credal.Proofs.Solver.Reevaluated
import Credal.Proofs.Solver.Scoped
import Credal.Proofs.StateSpace.Canonical
import Credal.Proofs.StateSpace.Machine
import Credal.Proofs.StateSpace.Marginal
import Credal.Proofs.StateSpace.Membership
import Credal.Proofs.StateSpace.Valuations
import Credal.Proofs.Steps
import Credal.Proofs.Translation.Enlarged
import Credal.Proofs.Translation.Faithful
import Credal.Proofs.Translation.Guards
import Credal.Proofs.Translation.Normal
import Credal.Proofs.Translation.Reading
import Credal.Race
import Credal.SExpr.Basic
import Credal.SExpr.Reader
import Credal.SExpr.Shown
import Credal.Settings
import Credal.Smt.Request
import Credal.Smt.Term
import Credal.Solver.Answer
import Credal.Solver.Problem
import Credal.Solver.Reply
import Credal.Solver.Session
import Credal.Solver.Solution
import Credal.StateSpace.LetterSet
import Credal.StateSpace.Truth
import Credal.StateSpace.TruthTable
import Credal.Text.Blank
import Credal.Text.CodePoint
import Credal.Text.Digit
import Credal.Text.Printable
import Credal.Text.Quoted
import Credal.Translation.Axioms
import Credal.Translation.StateSum
