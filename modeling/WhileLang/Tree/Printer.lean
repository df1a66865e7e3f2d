import WhileLang.Tree.Basic
import WhileLang.Layout

/-!
# `WhileLang/Tree/Printer.lean` — the canonical text of a program

One statement per line, loop bodies indented. **Every binary operator has its own parentheses**, so
its operands need none; a unary operator has its operand in parentheses and stands without any.
Placeholders are printed too, spelled like a missing symbol, so a tree can be looked at whatever is
wrong with it.
-/

set_option autoImplicit false

namespace WhileLang

def boolText : Bool → String
  | true => "true"
  | false => "false"

def Expr.text : Expr → String
  | .binary _ op l r => "(" ++ l.text ++ " " ++ op.text ++ " " ++ r.text ++ ")"
  | .unary _ op e => op.text ++ "(" ++ e.text ++ ")"
  | .bool _ b => boolText b
  | .int _ v => toString v
  | .var _ s => s.name
  | .hole _ => Symbol.errorName

/-- The canonical lines of a block at this depth. -/
def Block.lines (depth : Nat) : Block → List Line
  | .done => []
  | .declare d rest =>
    ⟨depth, d.ty.text ++ " " ++ d.symbol.name ++ " = " ++ d.init.text ++ ";"⟩ :: rest.lines depth
  | .assign a rest =>
    ⟨depth, a.symbol.name ++ " = " ++ a.value.text ++ ";"⟩ :: rest.lines depth
  | .loop w body rest =>
    ⟨depth, "while " ++ w.cond.text ++ " \x7b"⟩ :: body.lines (depth + 1) ++
      ⟨depth, "\x7d"⟩ :: rest.lines depth

namespace Program

def lines (p : Program) : List Line :=
  p.body.lines 0 ++ [⟨0, "return " ++ p.result.text ++ ";"⟩]

/-- The canonical text of a program. -/
def text (p : Program) (indent : Indent) : String :=
  Line.renderAll indent p.lines

end Program

end WhileLang
