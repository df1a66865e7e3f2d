import WhileLang.Typing.Annotations
import WhileLang.Tree.Printer

/-!
# `WhileLang/Evaluation.lean` — running a program

A program runs on **one flat store**, from declarations to values: which variable a name means was
settled by the checker, so scopes do not appear again and variables of one name never meet. Integers
are 64-bit words and their arithmetic wraps.

Both operands of every operator are evaluated, also of `and` and `or`. An assignment evaluates its
value before it looks for its variable.

## What can go wrong, and what is no error

Running a program that was not checked can hit a name without a declaration, a value of the wrong
kind or a placeholder: these are the constructors of `RunFault`. That a program does not stop is no
error but the lack of an answer. `Block.run` therefore takes a bound on the rounds of each single
run of a loop, and its result is `none` **exactly when some run of a loop reaches the bound** before
its condition fails.
-/

set_option autoImplicit false

namespace WhileLang

/-- What an expression evaluates to. -/
inductive Value where
  | int (v : Int64)
  | bool (b : Bool)
deriving DecidableEq, Repr

def Value.text : Value → String
  | .int v => toString v
  | .bool b => boolText b

/-- Why a program cannot go on. -/
inductive RunFault where
  /-- The checker found no declaration of the name. -/
  | unresolved (name : String)
  | unset (name : String)
  | notBool (value : Value)
  | badOperand (op : UnaryOp) (value : Value)
  | badOperands (op : BinaryOp) (left right : Value)
  /-- There is no expression to evaluate. -/
  | hole
deriving DecidableEq, Repr

def RunFault.message : RunFault → String
  | .unresolved name => "identifier '" ++ name ++ "' was never resolved"
  | .unset name => "'" ++ name ++ "' read before it was declared"
  | .notBool v => "expected a bool, found " ++ v.text
  | .badOperand op v => "operator '" ++ op.text ++ "' applied to " ++ v.text
  | .badOperands op l r => "operator '" ++ op.text ++ "' applied to " ++ l.text ++ " and " ++ r.text
  | .hole => "placeholder expression reached evaluation"

/-- The values of the variables, by the numbers of their declarations. -/
abbrev Store := Std.TreeMap UInt32 Value

def Store.empty : Store := ∅

def UnaryOp.apply : UnaryOp → Value → Except RunFault Value
  | .plus, .int v => .ok (.int v)
  | .neg, .int v => .ok (.int (-v))
  | .not, .bool b => .ok (.bool !b)
  | op, v => .error (.badOperand op v)

def BinaryOp.apply : BinaryOp → Value → Value → Except RunFault Value
  | .add, .int a, .int b => .ok (.int (a + b))
  | .sub, .int a, .int b => .ok (.int (a - b))
  | .mul, .int a, .int b => .ok (.int (a * b))
  | .eq, .int a, .int b => .ok (.bool (a = b))
  | .ne, .int a, .int b => .ok (.bool (a ≠ b))
  | .lt, .int a, .int b => .ok (.bool (a < b))
  | .le, .int a, .int b => .ok (.bool (a ≤ b))
  | .gt, .int a, .int b => .ok (.bool (b < a))
  | .ge, .int a, .int b => .ok (.bool (b ≤ a))
  | .and, .bool a, .bool b => .ok (.bool (a && b))
  | .or, .bool a, .bool b => .ok (.bool (a || b))
  | op, l, r => .error (.badOperands op l r)

namespace Annotations

/-- The declaration that a node refers to, which is named `name`. -/
def resolve (ann : Annotations) (node : NodeId) (name : String) : Except RunFault DeclId :=
  match ann.binding? node with
  | some d => .ok d
  | none => .error (.unresolved name)

end Annotations

def Expr.eval (ann : Annotations) (store : Store) : Expr → Except RunFault Value
  | .binary _ op l r => do
    let a ← l.eval ann store
    let b ← r.eval ann store
    op.apply a b
  | .unary _ op e => do
    let a ← e.eval ann store
    op.apply a
  | .bool _ b => .ok (.bool b)
  | .int _ v => .ok (.int v)
  | .var n s => do
    let d ← ann.resolve n.id s.name
    match store[d.index]? with
    | some v => .ok v
    | none => .error (.unset s.name)
  | .hole _ => .error .hole

def Expr.holds (ann : Annotations) (store : Store) (e : Expr) : Except RunFault Bool := do
  match ← e.eval ann store with
  | .bool b => .ok b
  | v => .error (.notBool v)

/-- An answer, a fault, or neither within the bound. -/
abbrev Bounded (ε α : Type) := ExceptT ε Option α

namespace Bounded

/-- There is no answer within the bound. -/
def exhausted {ε α : Type} : Bounded ε α := ExceptT.mk none

/-- What needs no bound. -/
def ofExcept {ε α : Type} (x : Except ε α) : Bounded ε α := ExceptT.mk (some x)

end Bounded

/-- What running a program can come to. -/
abbrev Outcome (α : Type) := Bounded RunFault α

/-- Runs `body` as long as `cond` holds, at most `bound` times. -/
def iterate {ε σ : Type} (cond : σ → Except ε Bool) (body : σ → Bounded ε σ) :
    Nat → σ → Bounded ε σ
  | bound, s => do
    if ← Bounded.ofExcept (cond s) then
      match bound with
      | 0 => Bounded.exhausted
      | bound + 1 =>
        let s ← body s
        iterate cond body bound s
    else return s

/-- The store after a block, each run of a loop taking at most `bound` rounds. -/
def Block.run (ann : Annotations) (bound : Nat) : Block → Store → Outcome Store
  | .done, store => return store
  | .declare d rest, store => do
    let v ← Bounded.ofExcept (d.init.eval ann store)
    rest.run ann bound (store.insert d.decl.index v)
  | .assign a rest, store => do
    let v ← Bounded.ofExcept (a.value.eval ann store)
    let d ← Bounded.ofExcept (ann.resolve a.node.id a.symbol.name)
    rest.run ann bound (store.insert d.index v)
  | .loop w body rest, store => do
    let store ← iterate (fun s => w.cond.holds ann s) (body.run ann bound) bound store
    rest.run ann bound store

/-- The value that a program returns, each run of a loop taking at most `bound` rounds. -/
def Program.eval (p : Program) (ann : Annotations) (bound : Nat) : Outcome Value := do
  let store ← p.body.run ann bound .empty
  Bounded.ofExcept (p.result.eval ann store)

end WhileLang
