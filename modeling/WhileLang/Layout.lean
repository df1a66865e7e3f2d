/-!
# `WhileLang/Layout.lean` — text as indented lines

Every text this library writes is a list of lines, each with its nesting depth. The depth becomes
text only at the end, by **writing the indent once per level**, so how deep a line stands does not
depend on what the indent is; it may even be empty.
-/

set_option autoImplicit false

namespace WhileLang

/-- A line of output, without its indent and newline. -/
structure Line where
  depth : Nat
  text : String
deriving DecidableEq, Repr

/-- The text that is written once per level. -/
structure Indent where
  unit : String
deriving DecidableEq, Repr

namespace Indent

def tab : Indent := ⟨"\t"⟩

def spaces (width : Nat) : Indent := ⟨"".pushn ' ' width⟩

/-- What stands before the text of a line at this depth. -/
def before (indent : Indent) : Nat → String
  | 0 => ""
  | depth + 1 => indent.before depth ++ indent.unit

end Indent

namespace Line

/-- A line as written: indent, text and newline. -/
def render (indent : Indent) (line : Line) : String :=
  indent.before line.depth ++ line.text ++ "\n"

/-- The lines one after the other. -/
def renderAll (indent : Indent) (lines : List Line) : String :=
  String.join (lines.map (·.render indent))

end Line

end WhileLang
