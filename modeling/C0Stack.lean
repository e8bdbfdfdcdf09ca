import C0Stack.Position
import C0Stack.Text.Alphabetic
import C0Stack.Text.Numeric
import C0Stack.Text.Blank
import C0Stack.Text.Columns
import C0Stack.Text.Padded
import C0Stack.Text.Lines
import C0Stack.Text.Quoted
import C0Stack.Double
import C0Stack.Diagnostic
import C0Stack.Source
import C0Stack.Token.Basic
import C0Stack.Instruction
import C0Stack.Program
import C0Stack.Symbol.Binding
import C0Stack.Symbol.Table
import C0Stack.Token.Lexer
import C0Stack.Expr.Basic
import C0Stack.Expr.Parser
import C0Stack.Assembly
import C0Stack.Expr.Code
import C0Stack.Stmt.Basic
import C0Stack.Stmt.Parser
import C0Stack.CompilationUnit.Basic
import C0Stack.CompilationUnit.Code
import C0Stack.CompilationUnit.Parser
import C0Stack.Compiler
import C0Stack.Session
import C0Stack.Screen.Basic
import C0Stack.Screen.Grid
import C0Stack.Viewer.Basic
import C0Stack.CommandLine
import C0Stack.Main
import C0Stack.Proofs.Assembling
import C0Stack.Proofs.Static.Scopes
import C0Stack.Proofs.Static.Expr
import C0Stack.Proofs.Code.Expr
import C0Stack.Proofs.Token.Shape
import C0Stack.Proofs.Grammar.Expr
import C0Stack.Proofs.Translation
import C0Stack.Proofs.Grammar.Stmt
import C0Stack.Proofs.Grammar.CompilationUnit
import C0Stack.Proofs.Static.Stmt
import C0Stack.Proofs.Code.Stmt
import C0Stack.Proofs.Static.CompilationUnit
import C0Stack.Proofs.Code.CompilationUnit
import C0Stack.Proofs.Acceptance
import C0Stack.Proofs.Machine
import C0Stack.Proofs.Semantics
import C0Stack.Proofs.Interpreter
import C0Stack.Proofs.Simulation.Slots
import C0Stack.Proofs.Simulation.Basic
import C0Stack.Proofs.Simulation.Program
import C0Stack.Proofs.Grammar.Structured
import C0Stack.Proofs.Preservation
import C0Stack.Proofs.Code.Lines
import C0Stack.Proofs.Layout
import C0Stack.Proofs.Returns
import C0Stack.Proofs.Heights
import C0Stack.Proofs.Emission.Stmt
import C0Stack.Proofs.Emission.Origin
import C0Stack.Proofs.Emission.CompilationUnit
import C0Stack.Proofs.Balance
import C0Stack.Proofs.Calls
import C0Stack.Proofs.Recognition.Viability
import C0Stack.Proofs.Descent.Termination
import C0Stack.Proofs.Constants
import C0Stack.Proofs.Initialization
import C0Stack.Proofs.Invariance
import C0Stack.Proofs.Enclosure.Text
import C0Stack.Proofs.Symbol.History
import C0Stack.Proofs.Symbol.Slots
import C0Stack.Proofs.Analysis.Restoration
import C0Stack.Proofs.Token.Cutting
import C0Stack.Proofs.Token.Printing
import C0Stack.Proofs.Source.Undecodable
import C0Stack.Proofs.Source.Draining
import C0Stack.Proofs.Token.Quoting
import C0Stack.Proofs.Viewer.Cursor
import C0Stack.Proofs.Listing
import C0Stack.Proofs.Viewer.Highlighting
import C0Stack.Proofs.Viewer.Strings
import C0Stack.Proofs.Viewer.Grid
import C0Stack.Proofs.Viewer.Visibility
import C0Stack.Proofs.CommandLine.Output
