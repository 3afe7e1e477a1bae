import TensorBindings.Backward.Entry
import TensorBindings.Backward.Procedure
import TensorBindings.Backward.Renaming
import TensorBindings.CommandLine.Arguments
import TensorBindings.CommandLine.Run
import TensorBindings.Diagnostic
import TensorBindings.Document.Basic
import TensorBindings.Document.Reader
import TensorBindings.Document.Token
import TensorBindings.Document.Writer
import TensorBindings.Emission
import TensorBindings.EntryError
import TensorBindings.Expr.Basic
import TensorBindings.Expr.Printer
import TensorBindings.Expr.Reader
import TensorBindings.Expr.Token
import TensorBindings.Files.Error
import TensorBindings.Files.Path
import TensorBindings.Files.Tree
import TensorBindings.Generation
import TensorBindings.Header.Reader
import TensorBindings.Header.Token
import TensorBindings.Identifier
import TensorBindings.Main
import TensorBindings.Overload
import TensorBindings.Proofs.Backward.Acceptance
import TensorBindings.Proofs.Backward.CallSites
import TensorBindings.Proofs.Backward.Meaning
import TensorBindings.Proofs.Backward.Renaming
import TensorBindings.Proofs.Backward.Scope
import TensorBindings.Proofs.Expr.Structure
import TensorBindings.Proofs.Registry
import TensorBindings.Registry
import TensorBindings.Registry.Operation
import TensorBindings.RenderError
import TensorBindings.Signature.Basic
import TensorBindings.Signature.Synthesis
import TensorBindings.SyntaxFault
import TensorBindings.Table.Contents
import TensorBindings.Table.Declaration
import TensorBindings.Table.Error
import TensorBindings.Table.Formula
import TensorBindings.Table.Helper
import TensorBindings.TargetType
import TensorBindings.Text.Affix
import TensorBindings.Text.Blank
import TensorBindings.Text.DecimalDigit
import TensorBindings.Text.Printable
import TensorBindings.Text.Quoted
import TensorBindings.Proofs.Expr.Grammar
import TensorBindings.Proofs.Expr.Lexing
import TensorBindings.Proofs.Expr.Completeness
import TensorBindings.Proofs.Expr.Division
import TensorBindings.Proofs.Expr.Soundness
import TensorBindings.Proofs.Backward.Outputs
import TensorBindings.Proofs.Expr.Grouping
import TensorBindings.Proofs.Expr.NimLexemes
import TensorBindings.Proofs.Expr.NimRecovery
import TensorBindings.Proofs.Expr.NumberValue
import TensorBindings.Proofs.Expr.PlainText
import TensorBindings.Proofs.Registry.Precedence
import TensorBindings.Proofs.Registry.Refinement
import TensorBindings.Proofs.Backward.Extension
import TensorBindings.Proofs.Backward.GuardAndMask
import TensorBindings.Proofs.Backward.Rendering
import TensorBindings.Proofs.Backward.Outcome
import TensorBindings.Proofs.Generation.Totality
import TensorBindings.Proofs.Generation.Accounting
import TensorBindings.Proofs.Header.Grammar
import TensorBindings.Proofs.Header.Reading
import TensorBindings.Proofs.Header.RoundTrip
import TensorBindings.Proofs.Overload
import TensorBindings.Proofs.Backward.Bindings
import TensorBindings.Proofs.Table
import TensorBindings.Proofs.CommandLine
import TensorBindings.Proofs.Identifier
import TensorBindings.Proofs.Signature.Names
import TensorBindings.Proofs.Backward.Parameters
import TensorBindings.Proofs.Backward.TupleFields
import TensorBindings.Proofs.Backward.Subscripts
import TensorBindings.Proofs.Backward.SharedBindings
import TensorBindings.Proofs.Identifier.Stability
import TensorBindings.Proofs.Document
import TensorBindings.Proofs.Table.Schema
import TensorBindings.Proofs.Backward.Unimplemented
import TensorBindings.Proofs.Table.Helpers
