import LoxLang.Engine
import LoxLang.Log.Basic
import LoxLang.Log.Diagnostic
import LoxLang.Log.Fault
import LoxLang.Machine.Basic
import LoxLang.Machine.Failure
import LoxLang.Machine.Operation
import LoxLang.Number.Basic
import LoxLang.Number.Decimal
import LoxLang.Number.Read
import LoxLang.Number.Shortest
import LoxLang.Parse.Cause
import LoxLang.Parse.Expr
import LoxLang.Parse.Level
import LoxLang.Parse.Reading
import LoxLang.Parse.Rules
import LoxLang.Parse.Stmt
import LoxLang.Program.Arguments
import LoxLang.Program.Basic
import LoxLang.Repl.Basic
import LoxLang.Repl.Command
import LoxLang.Scope.Bindings
import LoxLang.Scope.Chain
import LoxLang.Scope.Forest
import LoxLang.Segment
import LoxLang.SourceFile
import LoxLang.Text.Blank
import LoxLang.Text.Digit
import LoxLang.Text.Integer
import LoxLang.Text.Letter
import LoxLang.Text.Newline
import LoxLang.Text.Printable
import LoxLang.Text.Quoted
import LoxLang.Text.Ranges
import LoxLang.Text.Style
import LoxLang.Text.Utf8
import LoxLang.Token.Basic
import LoxLang.Token.Scan
import LoxLang.Tree.Basic
import LoxLang.Tree.Node
import LoxLang.Tree.Render
import LoxLang.Value
import LoxLang.Main
import LoxLang.Proofs.Grammar.Basic
import LoxLang.Proofs.Grammar.Phrase
import LoxLang.Proofs.Grammar.Program
import LoxLang.Proofs.Lexical.Grammar
import LoxLang.Proofs.Lexical.Segments
import LoxLang.Proofs.Lexical.Scan
import LoxLang.Proofs.Recovery.Local
import LoxLang.Proofs.Recovery.Clause
import LoxLang.Proofs.Tree.Legal
import LoxLang.Proofs.Machine.Safety
import LoxLang.Proofs.Engine.History
import LoxLang.Proofs.Machine.Renaming
import LoxLang.Proofs.Scoping.Direct
import LoxLang.Proofs.Lines.Basic
import LoxLang.Proofs.Lines.Parse
import LoxLang.Proofs.Lexical.Join
import LoxLang.Proofs.Lines.Run
import LoxLang.Proofs.Machine.Output
import LoxLang.Proofs.Engine.Join
import LoxLang.Proofs.Repl.Lines
import LoxLang.Proofs.Repl.Script
import LoxLang.Proofs.Scoping.Forest
import LoxLang.Proofs.Lines.Unlined
import LoxLang.Proofs.Machine.Frame
import LoxLang.Proofs.Repl.State
import LoxLang.Proofs.Machine.Agreement
import LoxLang.Proofs.Grammar.Braces
import LoxLang.Proofs.Tree.Written
import LoxLang.Proofs.Lexical.FirstLines
import LoxLang.Proofs.Lexical.Places
import LoxLang.Proofs.Lexical.Layout
import LoxLang.Proofs.Repl.Block
import LoxLang.Proofs.Recovery.Keyword
import LoxLang.Proofs.Repl.Typed
import LoxLang.Proofs.Tree.Origin
import LoxLang.Proofs.Tree.Nesting
import LoxLang.Proofs.Grammar.Draft
import LoxLang.Proofs.Recovery.Cascade
import LoxLang.Proofs.Engine.Blame
import LoxLang.Proofs.Lexical.Returns
import LoxLang.Proofs.Number.Binary
import LoxLang.Proofs.Number.Display
import LoxLang.Proofs.Number.Literal
import LoxLang.Proofs.Tree.Sexp
import LoxLang.Proofs.Tree.Printed
import LoxLang.Proofs.Machine.Order
import LoxLang.Proofs.Log.Calls
import LoxLang.Proofs.Program.Listing
import LoxLang.Proofs.Program.Status
import LoxLang.Proofs.Number.Equality
import LoxLang.Proofs.Cursor.Basic
import LoxLang.Proofs.Cursor.Place
import LoxLang.Proofs.Cursor.Parse
