import Std.Data.TreeMap.Basic
import WhileLang.Typing.Check

/-!
# `WhileLang/Typing/Annotations.lean` — what the checker knows of each node

Later phases do not see scopes. They look up, under the number of a node, the type of an expression
and the declaration that a variable or an assignment refers to; and under the number of a
declaration, what it declares. **A declaration is recorded whether or not it was accepted**, and so
is the type of every expression.

Where two nodes have one number the later one in the order of the walk stays, operands before
operators and a value before the statement that contains it.
-/

set_option autoImplicit false

namespace WhileLang

/-- The tables of the checker. -/
structure Annotations where
  types : Std.TreeMap UInt32 Ty
  /-- The declaration that each variable and assignment refers to, if there is one. -/
  bindings : Std.TreeMap UInt32 DeclId
  decls : Std.TreeMap UInt32 DeclInfo

namespace Annotations

def empty : Annotations := ⟨∅, ∅, ∅⟩

instance : Inhabited Annotations := ⟨empty⟩

/-- The type of an expression; one that was not checked has none. -/
def tyOf (a : Annotations) (e : Expr) : Ty := a.types[e.id.index]?.getD .unknown

/-- The declaration that a variable or an assignment refers to. -/
def binding? (a : Annotations) (node : NodeId) : Option DeclId := a.bindings[node.index]?

/-- What a declaration declares. -/
def decl? (a : Annotations) (decl : DeclId) : Option DeclInfo := a.decls[decl.index]?

def declCount (a : Annotations) : Nat := a.decls.size

def setTy (a : Annotations) (node : NodeId) (t : Ty) : Annotations :=
  { a with types := a.types.insert node.index t }

/-- Records what a symbol at a node refers to, if anything. -/
def bind (a : Annotations) (scope : ScopeTable) (node : NodeId) (s : Symbol) : Annotations :=
  match scope.find? s with
  | some info => { a with bindings := a.bindings.insert node.index info.decl }
  | none => a

def setDecl (a : Annotations) (d : Declaration) : Annotations :=
  { a with decls := a.decls.insert d.decl.index d.info }

end Annotations

namespace Expr

def annotate (scope : ScopeTable) (e : Expr) (a : Annotations) : Annotations :=
  let a := match e with
    | .binary _ _ l r => r.annotate scope (l.annotate scope a)
    | .unary _ _ e => e.annotate scope a
    | .var n s => a.bind scope n.id s
    | .bool _ _ | .int _ _ | .hole _ => a
  a.setTy e.id (e.ty scope)

end Expr

namespace Block

def annotate (scope : ScopeTable) : Block → Annotations → Annotations
  | .done, a => a
  | .declare d rest, a =>
    rest.annotate (scope.declare d) ((d.init.annotate scope a).setDecl d)
  | .assign s rest, a =>
    rest.annotate scope ((s.value.annotate scope a).bind scope s.node.id s.symbol)
  | .loop w body rest, a =>
    rest.annotate scope (body.annotate scope.push (w.cond.annotate scope a))

end Block

namespace Program

def annotations (p : Program) : Annotations :=
  p.result.annotate p.finalScope (p.body.annotate .empty .empty)

end Program

end WhileLang
