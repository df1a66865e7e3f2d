import WhileLang.Main
import WhileLang.Proofs.Parser.Run
import WhileLang.Proofs.Tree.Numbers
import WhileLang.Proofs.Parser.Numbering
import WhileLang.Proofs.Parser.Whole
import WhileLang.Proofs.Typing.WellTyped
import WhileLang.Proofs.Evaluation.Rounds
import WhileLang.Proofs.Evaluation.Scoped
import WhileLang.Proofs.Evaluation.Agreement
import WhileLang.Proofs.Compilation.Valid
import WhileLang.Proofs.Compilation.Evaluation
import WhileLang.Proofs.Token.Reading
import WhileLang.Proofs.Tree.Canonical
import WhileLang.Proofs.Parser.Grammar
import WhileLang.Proofs.Parser.Readback
import WhileLang.Proofs.Compilation.Reprint
import WhileLang.Proofs.C.Text
import WhileLang.Proofs.C.Reader
import WhileLang.Proofs.C.Machine
import WhileLang.Proofs.C.Emitted
import WhileLang.Proofs.Evaluation.Operations
import WhileLang.Proofs.C.Parsed
import WhileLang.Proofs.C.Terms
import WhileLang.Proofs.C.Simulation
import WhileLang.Proofs.Compilation.InC
import WhileLang.Proofs.Typing.Sites
import WhileLang.Proofs.Compilation.Typing
import WhileLang.Proofs.Parser.Findings
import WhileLang.Proofs.Parser.Language
import WhileLang.Proofs.Parser.Accepts
import WhileLang.Proofs.Scope.Addresses
import WhileLang.Proofs.Typing.Lexical
import WhileLang.Proofs.Compilation.Names
import WhileLang.Proofs.Python.Layout
import WhileLang.Proofs.Python.Reader
import WhileLang.Proofs.Python.Emitted
import WhileLang.Proofs.Python.Parsed
import WhileLang.Proofs.Python.Machine
import WhileLang.Proofs.Python.Simulation
import WhileLang.Proofs.Compilation.InPython
import WhileLang.Proofs.Tree.Integers
import WhileLang.Proofs.Parser.Literals
import WhileLang.Proofs.Tree.Regrouped
import WhileLang.Proofs.Compilation.Session
import WhileLang.Proofs.Compilation.Regrouping
import WhileLang.Proofs.Compilation.Repeated
import WhileLang.Proofs.Token.Spacing
import WhileLang.Proofs.Token.Unplaced
import WhileLang.Proofs.Tree.Unplaced
import WhileLang.Proofs.Parser.Unplaced
import WhileLang.Proofs.Typing.Unplaced
import WhileLang.Proofs.Compilation.Unplaced
import WhileLang.Proofs.Compilation.Spacing
import WhileLang.Proofs.Token.Places
import WhileLang.Proofs.Token.Tiling
import WhileLang.Proofs.Parser.Precedence
import WhileLang.Proofs.Token.Slices
import WhileLang.Proofs.Parser.Progress
import WhileLang.Proofs.Parser.Extents
import WhileLang.Proofs.Parser.Reparse
import WhileLang.Proofs.Scope.Mentions
import WhileLang.Proofs.Target.Renamed
import WhileLang.Proofs.C.Scoping
import WhileLang.Proofs.Python.Names
import WhileLang.Proofs.Compilation.Renaming
import WhileLang.Proofs.Typing.Kept
import WhileLang.Proofs.Target.Obstacles
import WhileLang.Proofs.Compilation.Coded
import WhileLang.Proofs.Python.Nesting
import WhileLang.Proofs.Compilation.Nesting
import WhileLang.Proofs.Parser.Spelled
import WhileLang.Proofs.Evaluation.Unbounded
import WhileLang.Proofs.Compilation.Arithmetic
import WhileLang.Proofs.Typing.Filled
import WhileLang.Proofs.Typing.Faults
import WhileLang.Proofs.Parser.Order
import WhileLang.Proofs.Token.Adjacent
import WhileLang.Proofs.Diagnostic.Lines
import WhileLang.Proofs.Parser.Origin
import WhileLang.Proofs.Parser.Placeholders
import WhileLang.Proofs.Typing.Origin
import WhileLang.Proofs.Compilation.Rendered
import WhileLang.Proofs.Scope.Requests
import WhileLang.Proofs.Scope.History
import WhileLang.Proofs.Parser.Descent
import WhileLang.Proofs.Token.Ascending
import WhileLang.Proofs.Parser.Spans
import WhileLang.Proofs.Typing.Requests
import WhileLang.Proofs.CommandLine.FileTree
import WhileLang.Proofs.CommandLine.Plan
import WhileLang.Proofs.CommandLine.Run
import WhileLang.Proofs.Text.Quoted
