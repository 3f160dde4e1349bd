import SelfTypeLint.Analysis.Config
import SelfTypeLint.Analysis.Report
import SelfTypeLint.Analysis.Scan
import SelfTypeLint.Command.Arguments
import SelfTypeLint.Command.Check
import SelfTypeLint.Command.Error
import SelfTypeLint.Command.Fix
import SelfTypeLint.Command.Line
import SelfTypeLint.Diagnostic.Basic
import SelfTypeLint.Diagnostic.Queue
import SelfTypeLint.Diagnostic.Rule
import SelfTypeLint.Fix.All
import SelfTypeLint.Fix.Argument
import SelfTypeLint.Fix.Basic
import SelfTypeLint.Fix.Marker
import SelfTypeLint.Fix.Name
import SelfTypeLint.Fix.Registry
import SelfTypeLint.Host
import SelfTypeLint.Main
import SelfTypeLint.Path
import SelfTypeLint.Project.Disk
import SelfTypeLint.Project.Sources
import SelfTypeLint.Report.Document
import SelfTypeLint.Report.Json
import SelfTypeLint.Report.JsonValue
import SelfTypeLint.Report.Sarif
import SelfTypeLint.Report.Terminal
import SelfTypeLint.Settings.Braces
import SelfTypeLint.Settings.Cascade
import SelfTypeLint.Settings.EditorConfig
import SelfTypeLint.Settings.Glob
import SelfTypeLint.Settings.Options
import SelfTypeLint.Symbol.Basic
import SelfTypeLint.Symbol.Scope
import SelfTypeLint.Symbol.Table
import SelfTypeLint.Text.Blank
import SelfTypeLint.Text.Dotted
import SelfTypeLint.Text.Edit
import SelfTypeLint.Text.Lines
import SelfTypeLint.Text.Span
import SelfTypeLint.Text.Template
import SelfTypeLint.Text.Utf8
import SelfTypeLint.Token.Basic
import SelfTypeLint.Token.Identifier
import SelfTypeLint.Token.Lexer
import SelfTypeLint.Tree.Basic
import SelfTypeLint.Tree.Query
import SelfTypeLint.Tree.Reader.Cursor
import SelfTypeLint.Tree.Reader.Declarations
import SelfTypeLint.Tree.Reader.Skip
import SelfTypeLint.Tree.Reader.Types
import SelfTypeLint.Unicode.Alphabetic
import SelfTypeLint.Unicode.CharSet
import SelfTypeLint.Unicode.Letter
import SelfTypeLint.Unicode.Mark
import SelfTypeLint.Unicode.Number
import SelfTypeLint.Unicode.Recent
import SelfTypeLint.Workspace.Basic
import SelfTypeLint.Workspace.Rename
import SelfTypeLint.Proofs.Text.Splice
import SelfTypeLint.Proofs.Token.Tiles
import SelfTypeLint.Proofs.Reader.Moves
import SelfTypeLint.Proofs.Grammar.Types
import SelfTypeLint.Proofs.Reader.TypesSound
import SelfTypeLint.Proofs.Grammar.Declarations
import SelfTypeLint.Proofs.Grammar.Files
import SelfTypeLint.Proofs.Reader.HeaderSound
import SelfTypeLint.Proofs.Grammar.Places
import SelfTypeLint.Proofs.Reader.DeclarationsSound
import SelfTypeLint.Proofs.Reader.FilesSound
import SelfTypeLint.Proofs.Fix.Merge
import SelfTypeLint.Proofs.Workspace.Documents
import SelfTypeLint.Proofs.Tree.Query
import SelfTypeLint.Proofs.Workspace.References
import SelfTypeLint.Proofs.Fix.Applies
import SelfTypeLint.Proofs.Reader.TypesComplete
import SelfTypeLint.Proofs.Reader.HeaderComplete
import SelfTypeLint.Proofs.Reader.DeclarationsComplete
import SelfTypeLint.Proofs.Reader.FilesComplete
import SelfTypeLint.Proofs.Grammar.Respell
import SelfTypeLint.Proofs.Grammar.RespellDeclarations
import SelfTypeLint.Proofs.Grammar.RespellFiles
import SelfTypeLint.Proofs.Token.Lookahead
import SelfTypeLint.Proofs.Token.NameText
import SelfTypeLint.Proofs.Token.Exchange
import SelfTypeLint.Proofs.Grammar.Owners
import SelfTypeLint.Proofs.Reader.Respelled
import SelfTypeLint.Proofs.Workspace.Respelled
import SelfTypeLint.Proofs.Fix.Names
import SelfTypeLint.Proofs.Tree.Outline
import SelfTypeLint.Proofs.Tree.Innermost
import SelfTypeLint.Proofs.Grammar.Loose
import SelfTypeLint.Proofs.Grammar.Rows
import SelfTypeLint.Proofs.Grammar.NameRows
import SelfTypeLint.Proofs.Reader.Spans
import SelfTypeLint.Proofs.Symbol.Parts
import SelfTypeLint.Proofs.Symbol.Declared
import SelfTypeLint.Proofs.Symbol.Faithful
import SelfTypeLint.Proofs.Symbol.Lookup
import SelfTypeLint.Proofs.Symbol.Attributes
import SelfTypeLint.Proofs.Analysis.Findings
import SelfTypeLint.Proofs.Fix.Actionable
import SelfTypeLint.Proofs.Workspace.Renamed
import SelfTypeLint.Proofs.Fix.Clean
import SelfTypeLint.Proofs.Tree.Enclosing
import SelfTypeLint.Proofs.Analysis.Reordered
import SelfTypeLint.Proofs.Grammar.SpaceNames
import SelfTypeLint.Proofs.Symbol.Levels
import SelfTypeLint.Proofs.Symbol.Named
import SelfTypeLint.Proofs.Text.PlaceOrder
import SelfTypeLint.Proofs.Walk.Grammar
import SelfTypeLint.Proofs.Walk.Mirror
import SelfTypeLint.Proofs.Walk.Skips
import SelfTypeLint.Proofs.Workspace.Order
import SelfTypeLint.Proofs.Walk.Types
import SelfTypeLint.Proofs.Reader.Progress
import SelfTypeLint.Proofs.Walk.Declarations
import SelfTypeLint.Proofs.Walk.Files
import SelfTypeLint.Proofs.Token.Cover
import SelfTypeLint.Proofs.Diagnostic.Queue
import SelfTypeLint.Proofs.Analysis.Arrival
import SelfTypeLint.Proofs.Settings.Given
import SelfTypeLint.Proofs.Settings.Precedence
import SelfTypeLint.Proofs.Layout.Bare
import SelfTypeLint.Proofs.Layout.Step
import SelfTypeLint.Proofs.Layout.Types
import SelfTypeLint.Proofs.Layout.Declarations
import SelfTypeLint.Proofs.Layout.Targets
import SelfTypeLint.Proofs.Layout.Files
import SelfTypeLint.Proofs.Fix.Contents
import SelfTypeLint.Proofs.Fix.Accounting
import SelfTypeLint.Proofs.Fix.Visible
import SelfTypeLint.Proofs.Analysis.FirstFinding
import SelfTypeLint.Proofs.Symbol.OwnName
import SelfTypeLint.Proofs.Analysis.OwnArgument
import SelfTypeLint.Proofs.Grammar.Derivations
import SelfTypeLint.Proofs.Reader.TypesAccepted
import SelfTypeLint.Proofs.Reader.Ownership
import SelfTypeLint.Proofs.Workspace.RenameFrame
import SelfTypeLint.Proofs.Token.Brackets
import SelfTypeLint.Proofs.Grammar.Braces
import SelfTypeLint.Proofs.Tree.Members
import SelfTypeLint.Proofs.Grammar.Blocks
import SelfTypeLint.Proofs.Reader.Blocks
import SelfTypeLint.Proofs.Symbol.Reachable
import SelfTypeLint.Proofs.Symbol.Ambiguous
import SelfTypeLint.Proofs.Unicode.Classes
import SelfTypeLint.Proofs.Token.ValidNames
import SelfTypeLint.Proofs.Text.Clamp
import SelfTypeLint.Proofs.Text.Conflicts
import SelfTypeLint.Proofs.Text.Lines
import SelfTypeLint.Proofs.Report.Regions
import SelfTypeLint.Proofs.Settings.Alternatives
import SelfTypeLint.Proofs.Settings.BraceOffsets
import SelfTypeLint.Proofs.Text.Search
import SelfTypeLint.Proofs.Diagnostic.Calls
import SelfTypeLint.Proofs.Text.Template
import SelfTypeLint.Proofs.Token.Restart
import SelfTypeLint.Proofs.Fix.Header
import SelfTypeLint.Proofs.Fix.Directive
import SelfTypeLint.Proofs.Symbol.Parallel
import SelfTypeLint.Proofs.Symbol.Counterparts
import SelfTypeLint.Proofs.Symbol.Chains
import SelfTypeLint.Proofs.Workspace.RespelledScopes
import SelfTypeLint.Proofs.Workspace.Bound
import SelfTypeLint.Proofs.Fix.Added
import SelfTypeLint.Proofs.Fix.Edited
import SelfTypeLint.Proofs.Fix.RoundTrip
