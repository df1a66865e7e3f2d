import WhileLang.Operator

/-!
# `WhileLang/Tree/Basic.lean` — programs as trees

A program is a block of statements and the expression it returns. Every expression and statement is
a **node** with a number of its own and the stretch of source it was read from; what later phases
find out about a node is kept in tables under its number and not in the tree. Declarations have a
second number, which is what tells apart two variables of one name.

Where the source did not hold what was expected, the tree has a placeholder: an expression `hole`,
or a symbol with the name `Symbol.errorName`, which no source can spell.

## Blocks

A `Block` is a list of statements, written so that **each constructor holds the statement and the
rest of the list**. A loop is the one statement with a block of its own, so all of blocks is one
inductive type with plain recursion, and a function on blocks says in one place what it does with a
statement and what it does afterwards.
-/

set_option autoImplicit false

namespace WhileLang

structure NodeId where
  /-- The count of nodes finished before it. -/
  index : UInt32
deriving DecidableEq, Repr, Inhabited

structure DeclId where
  /-- The count of declarations before it. -/
  index : UInt32
deriving DecidableEq, Repr, Inhabited

def DeclId.text (d : DeclId) : String := toString d.index.toNat

/-- A name and the place where it is written. -/
structure Symbol where
  name : String
  span : Span
deriving DecidableEq, Repr

namespace Symbol

/-- The name that stands for a missing one. It is not spelled like a name, so no source has it. -/
def errorName : String := "<error>"

def missing (span : Span) : Symbol := ⟨errorName, span⟩

def isError (s : Symbol) : Bool := s.name = errorName

end Symbol

/-- What every node has: its number and its stretch of source. -/
structure Node where
  id : NodeId
  span : Span
deriving DecidableEq, Repr

inductive Expr where
  | binary (node : Node) (op : BinaryOp) (lhs rhs : Expr)
  | unary (node : Node) (op : UnaryOp) (operand : Expr)
  | bool (node : Node) (value : Bool)
  | int (node : Node) (value : Int64)
  | var (node : Node) (symbol : Symbol)
  | hole (node : Node)
deriving DecidableEq, Repr

namespace Expr

def node : Expr → Node
  | .binary n .. | .unary n .. | .bool n _ | .int n _ | .var n _ | .hole n => n

def id (e : Expr) : NodeId := e.node.id

def span (e : Expr) : Span := e.node.span

/-- The expressions in an expression, operands before operators, itself last. -/
def nodes : Expr → List Expr
  | .binary n op l r => l.nodes ++ r.nodes ++ [.binary n op l r]
  | .unary n op e => e.nodes ++ [.unary n op e]
  | e => [e]

end Expr

structure Declaration where
  node : Node
  decl : DeclId
  ty : Ty
  symbol : Symbol
  init : Expr
deriving DecidableEq, Repr

structure Assignment where
  node : Node
  symbol : Symbol
  value : Expr
deriving DecidableEq, Repr

/-- A loop, without the statements of its body. -/
structure LoopHead where
  node : Node
  cond : Expr
  /-- The stretch of the body's statements. -/
  bodySpan : Span
deriving DecidableEq, Repr

inductive Block where
  | done
  | declare (d : Declaration) (rest : Block)
  | assign (a : Assignment) (rest : Block)
  | loop (w : LoopHead) (body rest : Block)
deriving DecidableEq, Repr

namespace Block

def isEmpty : Block → Bool
  | .done => true
  | _ => false

/-- The numbers of the statements of a block, those of loop bodies apart. -/
def ids : Block → List NodeId
  | .done => []
  | .declare d rest => d.node.id :: rest.ids
  | .assign a rest => a.node.id :: rest.ids
  | .loop w _ rest => w.node.id :: rest.ids

/-- All declarations in a block, loop bodies included, in source order. -/
def declarations : Block → List Declaration
  | .done => []
  | .declare d rest => d :: rest.declarations
  | .assign _ rest => rest.declarations
  | .loop _ body rest => body.declarations ++ rest.declarations

/-- All assignments in a block, loop bodies included, in source order. -/
def assignments : Block → List Assignment
  | .done => []
  | .declare _ rest => rest.assignments
  | .assign a rest => a :: rest.assignments
  | .loop _ body rest => body.assignments ++ rest.assignments

/-- All expressions in a block, operands before operators, in source order. -/
def exprs : Block → List Expr
  | .done => []
  | .declare d rest => d.init.nodes ++ rest.exprs
  | .assign a rest => a.value.nodes ++ rest.exprs
  | .loop w body rest => w.cond.nodes ++ body.exprs ++ rest.exprs

end Block

structure Program where
  /-- From the first statement to the end of the return statement. -/
  span : Span
  bodySpan : Span
  body : Block
  result : Expr
deriving DecidableEq, Repr

/-- All expressions of a program, operands before operators, the result last. -/
def Program.exprs (p : Program) : List Expr :=
  p.body.exprs ++ p.result.nodes

end WhileLang
