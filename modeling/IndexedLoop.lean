import IndexedLoop.CommandLine
import IndexedLoop.Converter
import IndexedLoop.Files
import IndexedLoop.ForEach
import IndexedLoop.Fragment
import IndexedLoop.Grammar.Declaration
import IndexedLoop.Grammar.Expression
import IndexedLoop.Grammar.Function
import IndexedLoop.Grammar.Level
import IndexedLoop.Grammar.List
import IndexedLoop.Grammar.Loop
import IndexedLoop.Grammar.Markup
import IndexedLoop.Grammar.Member
import IndexedLoop.Grammar.Module
import IndexedLoop.Grammar.Operand
import IndexedLoop.Grammar.Parse
import IndexedLoop.Grammar.Primary
import IndexedLoop.Grammar.Program
import IndexedLoop.Grammar.Statement
import IndexedLoop.Located
import IndexedLoop.Log
import IndexedLoop.Lowering
import IndexedLoop.Main
import IndexedLoop.NameSupply
import IndexedLoop.Number.Binary64
import IndexedLoop.Number.Decimal
import IndexedLoop.Number.Literal
import IndexedLoop.Printer
import IndexedLoop.Proofs.Bytes
import IndexedLoop.Proofs.Capture
import IndexedLoop.Proofs.DanglingElse
import IndexedLoop.Proofs.Dump
import IndexedLoop.Proofs.DumpNumbers
import IndexedLoop.Proofs.EmptiedStatements
import IndexedLoop.Proofs.Extents.Blanks
import IndexedLoop.Proofs.Extents.Branch
import IndexedLoop.Proofs.Extents.Commas
import IndexedLoop.Proofs.Extents.Function
import IndexedLoop.Proofs.Extents.Declaration
import IndexedLoop.Proofs.Extents.Ends
import IndexedLoop.Proofs.Extents.Expression
import IndexedLoop.Proofs.Extents.Listings
import IndexedLoop.Proofs.Extents.Lowering
import IndexedLoop.Proofs.Extents.Markup
import IndexedLoop.Proofs.Extents.Member
import IndexedLoop.Proofs.Extents.Operand
import IndexedLoop.Proofs.Extents.Primary
import IndexedLoop.Proofs.Extents.Program
import IndexedLoop.Proofs.Extents.Reading
import IndexedLoop.Proofs.Extents.Shapes
import IndexedLoop.Proofs.Extents.Source
import IndexedLoop.Proofs.Extents.Statement
import IndexedLoop.Proofs.Extents.Subtree
import IndexedLoop.Proofs.Extents.Token
import IndexedLoop.Proofs.Extents.Tree
import IndexedLoop.Proofs.FirstFree
import IndexedLoop.Proofs.Forms
import IndexedLoop.Proofs.FreshNames
import IndexedLoop.Proofs.FrozenConfig
import IndexedLoop.Proofs.Gaps
import IndexedLoop.Proofs.Holes
import IndexedLoop.Proofs.HookCalls
import IndexedLoop.Proofs.Idiom
import IndexedLoop.Proofs.Iteration
import IndexedLoop.Proofs.Leaves
import IndexedLoop.Proofs.LiteralValues
import IndexedLoop.Proofs.LoopVariables
import IndexedLoop.Proofs.NumberText
import IndexedLoop.Proofs.NumberTokens
import IndexedLoop.Proofs.Numbering
import IndexedLoop.Proofs.Numerals
import IndexedLoop.Proofs.OnePass
import IndexedLoop.Proofs.OperandProtection
import IndexedLoop.Proofs.Operands.Expression
import IndexedLoop.Proofs.Operands.Passage
import IndexedLoop.Proofs.Operands.Row
import IndexedLoop.Proofs.Operands.Scan
import IndexedLoop.Proofs.Operands.Spelled
import IndexedLoop.Proofs.Operands.Statement
import IndexedLoop.Proofs.Origins
import IndexedLoop.Proofs.Printable
import IndexedLoop.Proofs.ReadFailures
import IndexedLoop.Proofs.Relabel
import IndexedLoop.Proofs.RenamedTrees
import IndexedLoop.Proofs.Renaming
import IndexedLoop.Proofs.Reports
import IndexedLoop.Proofs.Requoting
import IndexedLoop.Proofs.Returns
import IndexedLoop.Proofs.Rounding
import IndexedLoop.Proofs.RoundTrip
import IndexedLoop.Proofs.RoundTrip.Bare
import IndexedLoop.Proofs.RoundTrip.Braces
import IndexedLoop.Proofs.RoundTrip.Callee
import IndexedLoop.Proofs.RoundTrip.Calm
import IndexedLoop.Proofs.RoundTrip.Canonical
import IndexedLoop.Proofs.RoundTrip.Clean
import IndexedLoop.Proofs.RoundTrip.Covers
import IndexedLoop.Proofs.RoundTrip.Declaration
import IndexedLoop.Proofs.RoundTrip.Expression
import IndexedLoop.Proofs.RoundTrip.Function
import IndexedLoop.Proofs.RoundTrip.Header
import IndexedLoop.Proofs.RoundTrip.Lead
import IndexedLoop.Proofs.RoundTrip.Lists
import IndexedLoop.Proofs.RoundTrip.Marks
import IndexedLoop.Proofs.RoundTrip.Object
import IndexedLoop.Proofs.RoundTrip.Opening
import IndexedLoop.Proofs.RoundTrip.Operand
import IndexedLoop.Proofs.RoundTrip.Primary
import IndexedLoop.Proofs.RoundTrip.Program
import IndexedLoop.Proofs.RoundTrip.Reads
import IndexedLoop.Proofs.RoundTrip.Stands
import IndexedLoop.Proofs.RoundTrip.Statement
import IndexedLoop.Proofs.RoundTrip.Text
import IndexedLoop.Proofs.RoundTrip.Tokens
import IndexedLoop.Proofs.RoundTrip.View
import IndexedLoop.Proofs.Sequences
import IndexedLoop.Proofs.Sessions
import IndexedLoop.Proofs.SexprText
import IndexedLoop.Proofs.Skeleton
import IndexedLoop.Proofs.SourceSpans
import IndexedLoop.Proofs.SpanIndependence
import IndexedLoop.Proofs.Spans
import IndexedLoop.Proofs.StringTokens
import IndexedLoop.Proofs.Subtrees
import IndexedLoop.Proofs.TreeInduction
import IndexedLoop.Proofs.Untouched
import IndexedLoop.Proofs.Utf8
import IndexedLoop.Proofs.Visit
import IndexedLoop.Proofs.Walk
import IndexedLoop.Proofs.WalkEnds
import IndexedLoop.ReadError
import IndexedLoop.Session
import IndexedLoop.Sexpr
import IndexedLoop.Source
import IndexedLoop.Span
import IndexedLoop.Surface.Basic
import IndexedLoop.Surface.Chain
import IndexedLoop.Surface.Construct
import IndexedLoop.Surface.Cursor
import IndexedLoop.Surface.Lexical
import IndexedLoop.Surface.Pattern
import IndexedLoop.Surface.Semicolon
import IndexedLoop.Surface.Token
import IndexedLoop.Text.Escaped
import IndexedLoop.Text.Quoted
import IndexedLoop.Text.Utf8
import IndexedLoop.Tree.Basic
import IndexedLoop.Tree.Dump
import IndexedLoop.Tree.Edit
import IndexedLoop.Tree.Event
import IndexedLoop.Tree.Operator
import IndexedLoop.Tree.Walk
import IndexedLoop.Tree.Weight
