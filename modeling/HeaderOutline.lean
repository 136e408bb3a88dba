import HeaderOutline.Text.Basic
import HeaderOutline.Text.Letter
import HeaderOutline.Text.Utf8
import HeaderOutline.Parser.Basic
import HeaderOutline.Parser.Primitive
import HeaderOutline.Parser.Repeat
import HeaderOutline.Lexeme.Gap
import HeaderOutline.Lexeme.Word
import HeaderOutline.Lexeme.Scan
import HeaderOutline.Lexeme.Block
import HeaderOutline.Lexeme.Expression
import HeaderOutline.Lexeme.Attribute
import HeaderOutline.SyntaxError
import HeaderOutline.Nesting
import HeaderOutline.CType.Basic
import HeaderOutline.CType.Render
import HeaderOutline.CType.Parser
import HeaderOutline.TemplateParam
import HeaderOutline.Declarator
import HeaderOutline.Comment
import HeaderOutline.Directive
import HeaderOutline.Enumeration
import HeaderOutline.Function
import HeaderOutline.Variable
import HeaderOutline.Alias
import HeaderOutline.Record
import HeaderOutline.Record.Parser
import HeaderOutline.Scope
import HeaderOutline.Scope.Parser
import HeaderOutline.Header
import HeaderOutline.Json.Basic
import HeaderOutline.Json.Writer
import HeaderOutline.Json.Grammar
import HeaderOutline.Json.Reader
import HeaderOutline.Document
import HeaderOutline.Counts
import HeaderOutline.FileStore
import HeaderOutline.TempFile
import HeaderOutline.Conversion
import HeaderOutline.CommandLine
import HeaderOutline.Main
import HeaderOutline.Proofs.Parser.Outcome
import HeaderOutline.Proofs.Parser.Bounded
import HeaderOutline.Proofs.Parser.Committed
import HeaderOutline.Proofs.Parser.Reading
import HeaderOutline.Proofs.Parser.Curtailed
import HeaderOutline.Proofs.Lexeme.Scan
import HeaderOutline.Proofs.Parser.InStep
import HeaderOutline.Proofs.Parser.Related
import HeaderOutline.Proofs.Parser.Items
import HeaderOutline.Proofs.Grammar
import HeaderOutline.Proofs.Commitment
import HeaderOutline.Proofs.Report
import HeaderOutline.Proofs.Transparency
import HeaderOutline.Proofs.Lexeme
import HeaderOutline.Proofs.Lexeme.WrittenGap
import HeaderOutline.Proofs.CType.Written
import HeaderOutline.Proofs.CType.Name
import HeaderOutline.Proofs.CType.Qualified
import HeaderOutline.Proofs.CType.RoundTrip
import HeaderOutline.Proofs.CType.Balanced
import HeaderOutline.Proofs.Source.Tree
import HeaderOutline.Proofs.Source.Start
import HeaderOutline.Proofs.Source.Front
import HeaderOutline.Proofs.Source.Name
import HeaderOutline.Proofs.Source.Statement
import HeaderOutline.Proofs.Source.Definition
import HeaderOutline.Proofs.Source.Record
import HeaderOutline.Proofs.Source.RoundTrip
import HeaderOutline.Proofs.Lexeme.Expression
import HeaderOutline.Proofs.Record.Typedef
import HeaderOutline.Proofs.Assembly
import HeaderOutline.Proofs.Source.Depth
import HeaderOutline.Proofs.CType.Levels
import HeaderOutline.Proofs.Source.Levels
import HeaderOutline.Proofs.Source.Default
import HeaderOutline.Proofs.Source.Const
import HeaderOutline.Proofs.Comment.Leading
import HeaderOutline.Proofs.Comment.Declaration
import HeaderOutline.Proofs.Comment.Alternatives
import HeaderOutline.Proofs.Comment.Body
import HeaderOutline.Proofs.Comment.Front
import HeaderOutline.Proofs.Comment.Record
import HeaderOutline.Proofs.Json.Lexeme
import HeaderOutline.Proofs.Json.Reader
import HeaderOutline.Proofs.Json.Writer
import HeaderOutline.Proofs.Document.Keys
import HeaderOutline.Proofs.Document.Shown
import HeaderOutline.Proofs.Document
import HeaderOutline.Proofs.FileStore
import HeaderOutline.Proofs.TempFile
import HeaderOutline.Proofs.Conversion
import HeaderOutline.Proofs.Source.Qualified
import HeaderOutline.Proofs.FinalNewline.Lexeme
import HeaderOutline.Proofs.FinalNewline.Grammar
import HeaderOutline.Proofs.FinalNewline.Macro
import HeaderOutline.Proofs.FinalNewline
import HeaderOutline.Proofs.Lexeme.Gap
import HeaderOutline.Proofs.Lexeme.Closed
import HeaderOutline.Proofs.Lexeme.Place
import HeaderOutline.Proofs.Lexeme.Fork
import HeaderOutline.Proofs.Lexeme.Plain
import HeaderOutline.Proofs.Comment.Fork
import HeaderOutline.Proofs.Declarator.Rebase
import HeaderOutline.Proofs.Declarator.Fork
import HeaderOutline.Proofs.Declarator.HeadFork
import HeaderOutline.Proofs.Declarator.StatementFork
import HeaderOutline.Proofs.Function.Fork
import HeaderOutline.Proofs.Record.Fork
import HeaderOutline.Proofs.Scope.Fork
import HeaderOutline.Proofs.Declarator.Head
import HeaderOutline.Proofs.Declarator.Statement
import HeaderOutline.Proofs.Declarator.Unnamed
import HeaderOutline.Proofs.Document.Directives
import HeaderOutline.Proofs.Record.Access
import HeaderOutline.Proofs.Enumeration.Numeral
import HeaderOutline.Proofs.Enumeration.Radix
import HeaderOutline.Proofs.Enumeration.Literal
import HeaderOutline.Proofs.Enumeration.Values
import HeaderOutline.Proofs.Parser.Yields
import HeaderOutline.Proofs.CType.Sound
import HeaderOutline.Proofs.Declarator.Sound
import HeaderOutline.Proofs.Record.Sound
import HeaderOutline.Proofs.Scope.Sound
import HeaderOutline.Proofs.Text.Blank
import HeaderOutline.Proofs.Directive.Line
import HeaderOutline.Proofs.Directive.Piece
import HeaderOutline.Proofs.Directive.Replacement
import HeaderOutline.Proofs.Directive.Definition
import HeaderOutline.Proofs.Directive.Params
import HeaderOutline.Proofs.Directive.Comment
import HeaderOutline.Proofs.Directive.Report
import HeaderOutline.Proofs.Declarator.Attribute
import HeaderOutline.Proofs.Report.Position
import HeaderOutline.Proofs.Lexeme.Skip
import HeaderOutline.Proofs.Lexeme.Walk
import HeaderOutline.Proofs.Lexeme.Depth
import HeaderOutline.Proofs.Lexeme.Shortest
import HeaderOutline.Proofs.Lexeme.Cut
import HeaderOutline.Proofs.Lexeme.Nested
import HeaderOutline.Proofs.Counts.Message
import HeaderOutline.Proofs.Counts
import HeaderOutline.Proofs.Comment.Styles
import HeaderOutline.Proofs.Lexeme.Angled
import HeaderOutline.Proofs.CType.Extent
import HeaderOutline.Proofs.Source.Template
import HeaderOutline.Proofs.Record.Bases
import HeaderOutline.Proofs.Nesting.Guards
import HeaderOutline.Proofs.Nesting.Program
import HeaderOutline.Proofs.Nesting.Levelled
import HeaderOutline.Proofs.Nesting.Grammar
import HeaderOutline.Proofs.Nesting.Balance
import HeaderOutline.Proofs.Lexeme.LongestGap
