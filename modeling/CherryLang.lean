import CherryLang.Command.Batch
import CherryLang.Command.Error
import CherryLang.Command.FileName
import CherryLang.Command.Flag
import CherryLang.Command.FlagSet
import CherryLang.Command.Run
import CherryLang.Lexical.Error
import CherryLang.Lexical.Lexeme
import CherryLang.Lexical.Number
import CherryLang.Lexical.Progress
import CherryLang.Lexical.Quote
import CherryLang.Lexical.Scan
import CherryLang.Lexical.Transition
import CherryLang.Main
import CherryLang.Outcome.Basic
import CherryLang.Outcome.Failure
import CherryLang.Outcome.LifeCycle
import CherryLang.Outcome.Report
import CherryLang.Outcome.Text
import CherryLang.Proofs.Command.Contract
import CherryLang.Proofs.Command.Extension
import CherryLang.Proofs.Command.Flags
import CherryLang.Proofs.Command.Folding
import CherryLang.Proofs.Command.Isolation
import CherryLang.Proofs.Completeness.Expression
import CherryLang.Proofs.Completeness.File
import CherryLang.Proofs.Completeness.Parts
import CherryLang.Proofs.Completeness.Statement
import CherryLang.Proofs.Horizon.Parsing
import CherryLang.Proofs.Horizon.Parts
import CherryLang.Proofs.Layout.Agree
import CherryLang.Proofs.Layout.Checking
import CherryLang.Proofs.Layout.Parsing
import CherryLang.Proofs.Layout.Spelling
import CherryLang.Proofs.Layout.Verdict
import CherryLang.Proofs.Lexical.Ending
import CherryLang.Proofs.Lexical.Front
import CherryLang.Proofs.Lexical.Line
import CherryLang.Proofs.Lexical.LineBreak
import CherryLang.Proofs.Lexical.LongestMatch
import CherryLang.Proofs.Lexical.Lossless
import CherryLang.Proofs.Lexical.Marks
import CherryLang.Proofs.Lexical.Numeral
import CherryLang.Proofs.Lexical.Operator
import CherryLang.Proofs.Lexical.Piece
import CherryLang.Proofs.Lexical.Quotation
import CherryLang.Proofs.Lexical.Rescan
import CherryLang.Proofs.Lexical.Stream
import CherryLang.Proofs.Nesting.Course
import CherryLang.Proofs.Nesting.Discipline
import CherryLang.Proofs.Nesting.Fuel
import CherryLang.Proofs.Nesting.Recursion
import CherryLang.Proofs.Nesting.Rules
import CherryLang.Proofs.Outcome.Lifetime
import CherryLang.Proofs.Outcome.Locations
import CherryLang.Proofs.Outcome.Routes
import CherryLang.Proofs.Scope.Blame
import CherryLang.Proofs.Scope.Chain
import CherryLang.Proofs.Scope.Context
import CherryLang.Proofs.Scope.Duplicates
import CherryLang.Proofs.Scope.Effect
import CherryLang.Proofs.Scope.Faults
import CherryLang.Proofs.Scope.FileOrder
import CherryLang.Proofs.Scope.Frame
import CherryLang.Proofs.Scope.Inheritance
import CherryLang.Proofs.Scope.Nearest
import CherryLang.Proofs.Scope.Order
import CherryLang.Proofs.Scope.Parts
import CherryLang.Proofs.Scope.Reports
import CherryLang.Proofs.Scope.Resolution
import CherryLang.Proofs.Scope.Uses
import CherryLang.Proofs.Soundness.Expression
import CherryLang.Proofs.Soundness.File
import CherryLang.Proofs.Soundness.Nesting
import CherryLang.Proofs.Soundness.Parts
import CherryLang.Proofs.Soundness.Statement
import CherryLang.Proofs.Source.Detour
import CherryLang.Proofs.Source.LongestText
import CherryLang.Proofs.Source.Refinement
import CherryLang.Proofs.Source.Standing
import CherryLang.Proofs.Syntax.Blames
import CherryLang.Proofs.Syntax.Height
import CherryLang.Proofs.Syntax.Respan
import CherryLang.Proofs.Syntax.Spells
import CherryLang.Proofs.Syntax.Takes
import CherryLang.Proofs.Syntax.Writing
import CherryLang.Proofs.Syntax.Yields
import CherryLang.Proofs.Text.Cut
import CherryLang.Scope.Binding
import CherryLang.Scope.Check
import CherryLang.Scope.Error
import CherryLang.Source.Cursor
import CherryLang.Source.Disk
import CherryLang.Source.Error
import CherryLang.Source.Position
import CherryLang.Source.Progress
import CherryLang.Source.Utf8
import CherryLang.Syntax.Dump
import CherryLang.Syntax.Error
import CherryLang.Syntax.Expression
import CherryLang.Syntax.File
import CherryLang.Syntax.Operator
import CherryLang.Syntax.Rule
import CherryLang.Syntax.Statement
import CherryLang.Syntax.Tree
import CherryLang.Text.Printable
import CherryLang.Text.Quoted
import CherryLang.Text.Record
import CherryLang.Token.Basic
import CherryLang.Token.Kind
import CherryLang.Token.Label
