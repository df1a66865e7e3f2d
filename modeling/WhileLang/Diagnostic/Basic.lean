import WhileLang.Source.Span

/-!
# `WhileLang/Diagnostic/Basic.lean` — what a run tells its user

A diagnostic is **one line, and one more line for each of its notes**: the place, the severity and
the message. Finding a problem never stops a phase; the finding is recorded and the phase goes on,
so whoever runs the phases looks at the number of errors afterwards.

Each phase has its own type of findings (`Stray`, `ParseFault`, `ScopeFault`, `TypeFault`), in which
the cause is a constructor and the wording is one function. A `Diagnostic` is what they have in
common once worded.
-/

set_option autoImplicit false

namespace WhileLang

/-- How grave a diagnostic is. -/
inductive Severity where
  | error
  | note
deriving DecidableEq, Repr

def Severity.text : Severity → String
  | .error => "error"
  | .note => "note"

/-- The rule that was broken. -/
inductive DiagnosticKind where
  /-- A character belongs to no token. -/
  | stray
  | parse
  | redeclaration
  | undeclared
  /-- An operand, initializer or condition has another type than its place demands. -/
  | typeMismatch
deriving DecidableEq, Repr

/-- A second place that helps to understand a diagnostic. -/
structure Note where
  span : Span
  message : String
deriving DecidableEq, Repr

/-- One finding, worded. -/
structure Diagnostic where
  severity : Severity
  kind : DiagnosticKind
  span : Span
  message : String
  /-- Further places, in the order in which they are shown. -/
  notes : List Note
deriving DecidableEq, Repr

namespace Diagnostic

def error (kind : DiagnosticKind) (span : Span) (message : String) : Diagnostic :=
  ⟨.error, kind, span, message, []⟩

/-- Adds a note after those already there. -/
def withNote (d : Diagnostic) (span : Span) (message : String) : Diagnostic :=
  { d with notes := d.notes ++ [⟨span, message⟩] }

/-- One line of output: place, severity and message. -/
def line (files : FileTable) (span : Span) (severity : Severity) (message : String) : String :=
  span.render files ++ ": " ++ severity.text ++ ": " ++ message

/-- The lines of a diagnostic: its own, then one for each note. -/
def lines (files : FileTable) (d : Diagnostic) : List String :=
  line files d.span d.severity d.message ::
    d.notes.map fun n => line files n.span .note n.message

/-- The lines of a diagnostic with newlines between them. -/
def render (files : FileTable) (d : Diagnostic) : String :=
  "\n".intercalate (d.lines files)

end Diagnostic

end WhileLang
