import LinearSystem.Scalar
import LinearSystem.Scalar.Rational
import LinearSystem.Scalar.Floating
import LinearSystem.Binary
import LinearSystem.Decimal.Shortest
import LinearSystem.Decimal.Text
import LinearSystem.Dense
import LinearSystem.Dense.Rows
import LinearSystem.Solver.Error
import LinearSystem.Rank
import LinearSystem.Settings
import LinearSystem.Reduction
import LinearSystem.Solvability
import LinearSystem.Solver
import LinearSystem.Text.Digits
import LinearSystem.Text.Decimal
import LinearSystem.Json.Lexeme
import LinearSystem.Json.Number
import LinearSystem.Stored.Error
import LinearSystem.Json.Reader
import LinearSystem.Stored.System
import LinearSystem.Stored.Json
import LinearSystem.Json.Writer
import LinearSystem.Stored.Written
import LinearSystem.Toml.Node
import LinearSystem.Toml.Lexeme
import LinearSystem.Toml.Scalar
import LinearSystem.Toml.Document
import LinearSystem.Stored.Toml
import LinearSystem.Stored.Path
import LinearSystem.Stored.Folder
import LinearSystem.Stored.Load
import LinearSystem.Command.Arguments
import LinearSystem.Command.Report
import LinearSystem.Command.Run
import LinearSystem.Main
import LinearSystem.Proofs.Rational
import LinearSystem.Proofs.Equations
import LinearSystem.Proofs.RowOperation
import LinearSystem.Proofs.Rank
import LinearSystem.Proofs.RankRun
import LinearSystem.Proofs.Exact
import LinearSystem.Proofs.Solvability
import LinearSystem.Proofs.Solver
import LinearSystem.Proofs.Floating.Packing
import LinearSystem.Proofs.Floating.Order
import LinearSystem.Proofs.Floating.Format
import LinearSystem.Proofs.Tolerance
import LinearSystem.Proofs.Residual
import LinearSystem.Proofs.Reduction.Pivots
import LinearSystem.Proofs.Reduction.Bookkeeping
import LinearSystem.Proofs.Reduction.Settled
import LinearSystem.Proofs.Reduction.Columns
import LinearSystem.Proofs.Reduction.Solutions
import LinearSystem.Proofs.Reduction.BackSubstitution
import LinearSystem.Proofs.Reduction.Span
import LinearSystem.Proofs.Reduction.Uniqueness
import LinearSystem.Proofs.SolutionSet
import LinearSystem.Proofs.Completeness
import LinearSystem.Proofs.Independence
import LinearSystem.Proofs.Negligible
import LinearSystem.Proofs.Agreement
import LinearSystem.Proofs.ZeroRows
import LinearSystem.Proofs.EquationOrder
import LinearSystem.Proofs.RightHandSide
import LinearSystem.Proofs.AugmentedRank
import LinearSystem.Proofs.Refusal
import LinearSystem.Proofs.Reduction.Leading
import LinearSystem.Proofs.Reduction.Frozen
import LinearSystem.Proofs.Floating.Quotient
import LinearSystem.Proofs.PivotUnknowns
import LinearSystem.Proofs.ReducedForm
import LinearSystem.Proofs.Floating.NonFinite
import LinearSystem.Proofs.FreeUnknowns
import LinearSystem.Proofs.ResidualBound
import LinearSystem.Proofs.Superposition
import LinearSystem.Proofs.EchelonForm
import LinearSystem.Proofs.RankRowOrder
import LinearSystem.Proofs.InPlace
import LinearSystem.Proofs.RankLoop
import LinearSystem.Proofs.PivotChoice
import LinearSystem.Proofs.ColumnPartition
import LinearSystem.Proofs.StoredShape
import LinearSystem.Proofs.Floating.Position
import LinearSystem.Proofs.Floating.Rounding
import LinearSystem.Proofs.Floating.Arithmetic
import LinearSystem.Proofs.Json.PowersOfTen
import LinearSystem.Proofs.Json.Scaling
import LinearSystem.Proofs.Decimal
import LinearSystem.Proofs.ShortestDecimal
import LinearSystem.Proofs.Json.Numeral
import LinearSystem.Proofs.Json.Written
import LinearSystem.Proofs.Outcome
import LinearSystem.Proofs.Json.NumeralValue
import LinearSystem.Proofs.Json.Members
import LinearSystem.Proofs.Json.ReadBack
import LinearSystem.Proofs.SettingsText
