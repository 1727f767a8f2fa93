import SqlTree.Cursor
import SqlTree.Decimal.Layout
import SqlTree.Decimal.Reading
import SqlTree.Decimal.Shortest
import SqlTree.Dialect
import SqlTree.Grammar.Change
import SqlTree.Grammar.Constraint
import SqlTree.Grammar.DriftFile
import SqlTree.Grammar.Expr
import SqlTree.Grammar.Knot
import SqlTree.Grammar.Precedence
import SqlTree.Grammar.Query
import SqlTree.Grammar.Rules
import SqlTree.Grammar.Schema
import SqlTree.Grammar.Script
import SqlTree.Grammar.TypeName
import SqlTree.Grammar.VirtualTable
import SqlTree.Keyword
import SqlTree.Parse
import SqlTree.ParseError
import SqlTree.Parser
import SqlTree.Proofs.ArgumentLists
import SqlTree.Proofs.Bounds.Alike
import SqlTree.Proofs.Bounds.Rules
import SqlTree.Proofs.Bounds.Settles
import SqlTree.Proofs.Bounds.Statement
import SqlTree.Proofs.Bounds.Tireless
import SqlTree.Proofs.Careful.Expr
import SqlTree.Proofs.Careful.Query
import SqlTree.Proofs.Careful.Setting
import SqlTree.Proofs.Careful.Source
import SqlTree.Proofs.Careful.Statement
import SqlTree.Proofs.Careful.Steps
import SqlTree.Proofs.Chains
import SqlTree.Proofs.Chains.Operand
import SqlTree.Proofs.Chains.Tree
import SqlTree.Proofs.Conservative
import SqlTree.Proofs.Cutting
import SqlTree.Proofs.Decimal.Doubles
import SqlTree.Proofs.Decimal.Nearest
import SqlTree.Proofs.Decimal.Shortest
import SqlTree.Proofs.Decimal.Spelling
import SqlTree.Proofs.Delimits
import SqlTree.Proofs.Entry
import SqlTree.Proofs.Features
import SqlTree.Proofs.Gaps
import SqlTree.Proofs.Gates
import SqlTree.Proofs.Gates.Ensures
import SqlTree.Proofs.Gates.Expr
import SqlTree.Proofs.Gates.Query
import SqlTree.Proofs.Gates.Statement
import SqlTree.Proofs.Indexed
import SqlTree.Proofs.Leaves
import SqlTree.Proofs.Legible
import SqlTree.Proofs.Legible.Expr
import SqlTree.Proofs.Legible.Literal
import SqlTree.Proofs.Legible.Piece
import SqlTree.Proofs.Legible.Query
import SqlTree.Proofs.Legible.Scanned
import SqlTree.Proofs.Legible.Statement
import SqlTree.Proofs.Legible.Verbatim
import SqlTree.Proofs.Lexing
import SqlTree.Proofs.Lists
import SqlTree.Proofs.Lookahead
import SqlTree.Proofs.Lossless
import SqlTree.Proofs.Malformed
import SqlTree.Proofs.Negation
import SqlTree.Proofs.Operands
import SqlTree.Proofs.Operators
import SqlTree.Proofs.Origins.Change
import SqlTree.Proofs.Origins.Expr
import SqlTree.Proofs.Origins.Faithful
import SqlTree.Proofs.Origins.Gives
import SqlTree.Proofs.Origins.Query
import SqlTree.Proofs.Origins.Schema
import SqlTree.Proofs.Origins.Source
import SqlTree.Proofs.Origins.Traced
import SqlTree.Proofs.Origins.Written
import SqlTree.Proofs.Placeholders
import SqlTree.Proofs.Positions
import SqlTree.Proofs.Precedence
import SqlTree.Proofs.Precedence.Fitted
import SqlTree.Proofs.Precedence.Ranked
import SqlTree.Proofs.RawArguments
import SqlTree.Proofs.Reread.Call
import SqlTree.Proofs.Reread.Change
import SqlTree.Proofs.Reread.Column
import SqlTree.Proofs.Reread.Constraint
import SqlTree.Proofs.Reread.Creation
import SqlTree.Proofs.Reread.Definition
import SqlTree.Proofs.Reread.DriftFile
import SqlTree.Proofs.Reread.Forms
import SqlTree.Proofs.Reread.Knot
import SqlTree.Proofs.Reread.Known
import SqlTree.Proofs.Reread.Names
import SqlTree.Proofs.Reread.Operand
import SqlTree.Proofs.Reread.Operator
import SqlTree.Proofs.Reread.Query
import SqlTree.Proofs.Reread.Select
import SqlTree.Proofs.Reread.Setting
import SqlTree.Proofs.Reread.Sorting
import SqlTree.Proofs.Reread.Source
import SqlTree.Proofs.Reread.Starter
import SqlTree.Proofs.Reread.Steps
import SqlTree.Proofs.Reread.Table
import SqlTree.Proofs.Reread.TypeName
import SqlTree.Proofs.Reread.Window
import SqlTree.Proofs.RoundTrip
import SqlTree.Proofs.Run
import SqlTree.Proofs.Scanning
import SqlTree.Proofs.Scripts
import SqlTree.Proofs.Scripts.Fresh
import SqlTree.Proofs.Shapes
import SqlTree.Proofs.Slices
import SqlTree.Proofs.SourceOrder
import SqlTree.Proofs.Sources
import SqlTree.Proofs.Spacing
import SqlTree.Proofs.Spans.Change
import SqlTree.Proofs.Spans.Expr
import SqlTree.Proofs.Spans.Leads
import SqlTree.Proofs.Spans.Query
import SqlTree.Proofs.Spans.Schema
import SqlTree.Proofs.Spans.Source
import SqlTree.Proofs.Spans.Tape
import SqlTree.Proofs.Starts
import SqlTree.Proofs.Stored
import SqlTree.Proofs.Termination
import SqlTree.Proofs.Traversal
import SqlTree.Proofs.Unplaced
import SqlTree.Proofs.Uses
import SqlTree.Proofs.Versions
import SqlTree.Proofs.VirtualColumns
import SqlTree.Proofs.Walks
import SqlTree.Proofs.Words
import SqlTree.Render.Change
import SqlTree.Render.DriftFile
import SqlTree.Render.Expr
import SqlTree.Render.Node
import SqlTree.Render.Piece
import SqlTree.Render.Schema
import SqlTree.Span
import SqlTree.Text.Bytes
import SqlTree.Text.CharClass
import SqlTree.Text.CharTable
import SqlTree.Text.Quoted
import SqlTree.Text.Words
import SqlTree.Token
import SqlTree.Token.Lexer
import SqlTree.Tree.Change
import SqlTree.Tree.Clause
import SqlTree.Tree.DriftFile
import SqlTree.Tree.Expr
import SqlTree.Tree.Literal
import SqlTree.Tree.Node
import SqlTree.Tree.Schema
import SqlTree.Tree.Walk
import SqlTree.Version
