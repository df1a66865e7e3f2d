import WhileLang.Typing.Fault

/-!
# `WhileLang/Typing/Check.lean` — names and types, checked

What a program means to the checker is said by **functions of a scope and a tree**: the type of an
expression, and the findings in an expression or a block. The scope is an argument that grows along
a block; a loop body gets the scope with a fresh frame, and what follows the loop gets the scope
from before it, so there is nothing to take back.

The type of an operator's result does not depend on its operands. A wrong operand is therefore
complained about once, and what contains it is checked as if it had been right.
-/

set_option autoImplicit false

namespace WhileLang

namespace Expr

def ty (scope : ScopeTable) : Expr → Ty
  | .binary _ op _ _ => op.result
  | .unary _ op _ => op.operand
  | .bool _ _ => .bool
  | .int _ _ => .int
  | .var _ s => (scope.find? s).elim .unknown (·.ty)
  | .hole _ => .unknown

/-- The findings in an expression: those in its operands, and then those about them. -/
def faults (scope : ScopeTable) : Expr → List Diagnostic
  | .binary _ op l r =>
    l.faults scope ++ r.faults scope ++ (TypeFault.left op (l.ty scope)).check l.span ++
      (TypeFault.right op (r.ty scope)).check r.span
  | .unary _ op e => e.faults scope ++ (TypeFault.operand op (e.ty scope)).check e.span
  | .bool _ _ | .int _ _ | .hole _ => []
  | .var _ s => scope.useFaults s

end Expr

namespace Declaration

/-- The findings in a declaration. Its name is declared last, so its own value does not see it. -/
def faults (scope : ScopeTable) (d : Declaration) : List Diagnostic :=
  d.init.faults scope ++
    (TypeFault.initializer d.symbol d.ty (d.init.ty scope)).check d.init.span ++
    scope.declareFaults d

end Declaration

namespace Assignment

def faults (scope : ScopeTable) (a : Assignment) : List Diagnostic :=
  a.value.faults scope ++ scope.useFaults a.symbol ++
    match scope.find? a.symbol with
    | some target => (TypeFault.assigned a.symbol target (a.value.ty scope)).check a.value.span
    | none => []

end Assignment

namespace Block

def faults (scope : ScopeTable) : Block → List Diagnostic
  | .done => []
  | .declare d rest => d.faults scope ++ rest.faults (scope.declare d)
  | .assign a rest => a.faults scope ++ rest.faults scope
  | .loop w body rest =>
    w.cond.faults scope ++ (TypeFault.condition (w.cond.ty scope)).check w.cond.span ++
      body.faults scope.push ++ rest.faults scope

/-- The scope after a block: its own declarations are visible and those of loop bodies are not. -/
def scopeAfter (scope : ScopeTable) : Block → ScopeTable
  | .done => scope
  | .declare d rest => rest.scopeAfter (scope.declare d)
  | .assign _ rest => rest.scopeAfter scope
  | .loop _ _ rest => rest.scopeAfter scope

end Block

namespace Program

/-- The scope in which the result of a program is evaluated. -/
def finalScope (p : Program) : ScopeTable :=
  p.body.scopeAfter .empty

def faults (p : Program) : List Diagnostic :=
  p.body.faults .empty ++ p.result.faults p.finalScope

end Program

end WhileLang
