import WhileLang.Target.Dialect
import WhileLang.Typing.Annotations

/-!
# `WhileLang/Target/Code.lean` — a program as C or Python

The shape of the source is kept: **every binary operator has its own parentheses**, every statement
its own line, and every variable a name of its own, so neither the precedence of the target's
operators nor its scoping has a say in what the code means.

Code exists only for what the checker resolved. The first name without a declaration, or the first
placeholder, in the order in which the text is written, is the fault: a value comes before the
variable it goes to, and the value of a declaration before its type.
-/

set_option autoImplicit false

namespace WhileLang

/-- Why there is no code for a program. -/
inductive CodeFault where
  /-- The checker found no declaration of the name. -/
  | unresolved (name : String)
  | hole
  | unknownType
deriving DecidableEq, Repr

def CodeFault.message : CodeFault → String
  | .unresolved name => "identifier '" ++ name ++ "' was never resolved"
  | .hole => "placeholder expression reached translation"
  | .unknownType => "declaration of unknown type reached translation"

/-- The name of the variable that a node refers to. -/
def Annotations.varName (ann : Annotations) (node : NodeId) (name : String) :
    Except CodeFault String :=
  match ann.binding? node with
  | some d => .ok (Target.varName name d)
  | none => .error (.unresolved name)

def Expr.code (target : Target) (ann : Annotations) : Expr → Except CodeFault String
  | .binary _ op l r => do
    let a ← l.code target ann
    let b ← r.code target ann
    .ok ("(" ++ a ++ " " ++ target.binary op ++ " " ++ b ++ ")")
  | .unary _ op e => do
    let a ← e.code target ann
    .ok (target.unary op ++ "(" ++ a ++ ")")
  | .bool _ b => .ok (target.bool b)
  | .int _ v => .ok (target.int v)
  | .var n s => ann.varName n.id s.name
  | .hole _ => .error .hole

/-- What stands before the name of a declared variable: its type in C, nothing in Python. -/
def Target.declarator : Target → Ty → Except CodeFault String
  | .c, .int => .ok "long long "
  | .c, .bool => .ok "bool "
  | .c, .unknown => .error .unknownType
  | .python, _ => .ok ""

def Declaration.code (target : Target) (ann : Annotations) (d : Declaration) :
    Except CodeFault String := do
  let init ← d.init.code target ann
  let declarator ← target.declarator d.ty
  .ok (declarator ++ target.assign (Target.varName d.symbol.name d.decl) init)

def Assignment.code (target : Target) (ann : Annotations) (a : Assignment) :
    Except CodeFault String := do
  let value ← a.value.code target ann
  let name ← ann.varName a.node.id a.symbol.name
  .ok (target.assign name value)

/-- The lines of a block that stands at this depth. -/
def Block.code (target : Target) (ann : Annotations) (depth : Nat) :
    Block → Except CodeFault (List Line)
  | .done => .ok []
  | .declare d rest => do
    let text ← d.code target ann
    let lines ← rest.code target ann depth
    .ok (⟨depth, text⟩ :: lines)
  | .assign a rest => do
    let text ← a.code target ann
    let lines ← rest.code target ann depth
    .ok (⟨depth, text⟩ :: lines)
  | .loop w body rest => do
    let cond ← w.cond.code target ann
    let inner ← body.code target ann (depth + 1)
    let lines ← rest.code target ann depth
    .ok (⟨depth, target.loopHead cond⟩ :: target.bodyBegin (depth + 1) body ++ inner ++
      target.loopEnd depth ++ lines)

namespace Program

def codeLines (p : Program) (target : Target) (ann : Annotations) :
    Except CodeFault (List Line) := do
  let body ← p.body.code target ann target.bodyDepth
  let result ← p.result.code target ann
  .ok (target.preamble ++ body ++
    [⟨target.bodyDepth, target.print (ann.tyOf p.result) result⟩] ++ target.epilogue)

def code (p : Program) (target : Target) (ann : Annotations) (indent : Indent) :
    Except CodeFault String :=
  return Line.renderAll indent (← p.codeLines target ann)

end Program

end WhileLang
