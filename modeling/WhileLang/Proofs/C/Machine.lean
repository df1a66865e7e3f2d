import WhileLang.Evaluation
import WhileLang.Proofs.C.Reader
import WhileLang.Proofs.Scope.Frames

/-!
# `WhileLang/Proofs/C/Machine.lean` — running a C program

`int` has 32 bits, `long` and `long long` have 64. An operator between two integers is applied in
the larger of their promoted types, and **a result that this type does not have is not wrapped: the
behaviour is undefined**, and the run ends in `Fault.overflow`. So does every other step for which
the language promises nothing, in a fault of its own: an answer of the machine is an answer that
every implementation gives.

`&&` and `||` leave their second operand alone when the first decides. A declaration is in scope in
its own first value, without a value itself. Each block has a frame, also each round of a loop.
-/

set_option autoImplicit false

namespace WhileLang.C

inductive Fault where
  /-- The text is not of the form that is read. -/
  | unreadable
  /-- A signed result is out of the range of its type. -/
  | overflow
  | undeclared (name : String)
  | redeclared (name : String)
  /-- The variable has no value yet. -/
  | indeterminate (name : String)
  /-- The value is converted to a type that does not have it. -/
  | conversion
  /-- No type has the value of the constant. -/
  | constant
  /-- The format and the arguments do not belong together. -/
  | format
deriving DecidableEq, Repr

namespace Ty

def rank : Ty → Nat
  | .bool => 0
  | .int => 1
  | .long => 2
  | .longLong => 3

/-- The type has the value. -/
def Fits : Ty → Int → Prop
  | .bool, n => 0 ≤ n ∧ n ≤ 1
  | .int, n => -2147483648 ≤ n ∧ n ≤ 2147483647
  | .long, n | .longLong, n => -9223372036854775808 ≤ n ∧ n ≤ 9223372036854775807

instance (t : Ty) (n : Int) : Decidable (t.Fits n) := by
  cases t <;> exact inferInstanceAs (Decidable (_ ∧ _))

/-- The type in which an operand takes part in an operation. -/
def promote : Ty → Ty
  | .bool => .int
  | t => t

/-- The type in which an operation on two operands is done. -/
def common (t u : Ty) : Ty :=
  if t.promote.rank ≤ u.promote.rank then u.promote else t.promote

/-- The type of a constant: the first one from `least` on that has it. -/
def ofConstant? (least : Ty) (value : Nat) : Option Ty :=
  [int, long, longLong].find? fun t => least.rank ≤ t.rank ∧ t.Fits value

end Ty

structure Value where
  ty : Ty
  n : Int
deriving DecidableEq, Repr

namespace Value

def truth (b : Bool) : Value := ⟨.int, if b then 1 else 0⟩

/-- The value as one of type `t`. -/
def convert (v : Value) (t : Ty) : Except Fault Value :=
  -- only whether it is zero matters to `bool`, which therefore has every value
  if t = .bool then .ok ⟨.bool, if v.n = 0 then 0 else 1⟩
  else if t.Fits v.n then .ok ⟨t, v.n⟩ else .error .conversion

/-- An exact result in the type it is to have. -/
def arithmetic (t : Ty) (exact : Int) : Except Fault Value :=
  if t.Fits exact then .ok ⟨t, exact⟩ else .error .overflow

def unary : UnaryOp → Value → Except Fault Value
  | .plus, v => arithmetic v.ty.promote v.n
  | .neg, v => arithmetic v.ty.promote (-v.n)
  | .not, v => .ok (truth (v.n = 0))

/-- What an operator makes of operands that are both evaluated and of one type. -/
def operate (t : Ty) (a b : Int) : BinaryOp → Except Fault Value
  | .add => arithmetic t (a + b)
  | .sub => arithmetic t (a - b)
  | .mul => arithmetic t (a * b)
  | .eq => .ok (truth (a = b))
  | .ne => .ok (truth (a ≠ b))
  | .lt => .ok (truth (a < b))
  | .le => .ok (truth (a ≤ b))
  | .gt => .ok (truth (b < a))
  | .ge => .ok (truth (b ≤ a))
  | .and => .ok (truth (a ≠ 0 ∧ b ≠ 0))
  | .or => .ok (truth (a ≠ 0 ∨ b ≠ 0))

def binary (op : BinaryOp) (v w : Value) : Except Fault Value := do
  let t := v.ty.common w.ty
  operate t (← v.convert t).n (← w.convert t).n op

end Value

/-- The variables that are in scope, with their types and, once they have any, their values. -/
abbrev Env := Frames (Ty × Option Int)

def Env.value (env : Env) (x : String) : Except Fault Value :=
  match env.read x with
  | some (t, some n) => .ok ⟨t, n⟩
  | some (_, none) => .error (.indeterminate x)
  | none => .error (.undeclared x)

def Term.eval (env : Env) : Term → Except Fault Value
  | .constant least value =>
    match Ty.ofConstant? least value with
    | some t => .ok ⟨t, value⟩
    | none => .error .constant
  | .var x => env.value x
  | .unary op e => do
    let v ← e.eval env
    v.unary op
  | .binary .and l r => do
    let v ← l.eval env
    if v.n = 0 then .ok (.truth false) else
      let w ← r.eval env
      .ok (.truth (w.n ≠ 0))
  | .binary .or l r => do
    let v ← l.eval env
    if v.n ≠ 0 then .ok (.truth true) else
      let w ← r.eval env
      .ok (.truth (w.n ≠ 0))
  | .binary op l r => do
    let v ← l.eval env
    let w ← r.eval env
    Value.binary op v w
  | .cast t e => do
    let v ← e.eval env
    v.convert t

/-- The characters that a format prints with these arguments. -/
def formatted : List Char → List Value → Except Fault (List Char)
  | [], [] => .ok []
  | '%' :: 'l' :: 'l' :: 'd' :: content, ⟨.longLong, n⟩ :: vs => do
    let rest ← formatted content vs
    .ok ((toString n).toList ++ rest)
  | '%' :: _, _ | [], _ :: _ => .error .format
  | c :: content, vs => do
    let rest ← formatted content vs
    .ok (c :: rest)

def Printed.chars (env : Env) : Printed → Except Fault (List Char)
  | .format content arguments => do
    let vs ← arguments.mapM (·.eval env)
    formatted content vs
  | .choice cond yes no => do
    let v ← cond.eval env
    formatted (if v.n = 0 then no else yes) []

/-- The variables in scope, and what was printed. -/
structure State where
  env : Env
  output : List Char
deriving DecidableEq, Repr

def Term.holds (cond : Term) (s : State) : Except Fault Bool := do
  let v ← cond.eval s.env
  .ok (v.n ≠ 0)

namespace Env

def declare (env : Env) (t : Ty) (x : String) (init : Term) : Except Fault Env :=
  if (env.top.lookup x).isSome then .error (.redeclared x) else do
    -- the name is in scope from here on, and hides what had it before
    let v ← init.eval (env.bind x (t, none))
    let v ← v.convert t
    .ok (env.bind x (t, some v.n))

def assign (env : Env) (x : String) (value : Term) : Except Fault Env := do
  let v ← value.eval env
  match env.read x with
  | none => .error (.undeclared x)
  | some (t, _) =>
    let v ← v.convert t
    match env.write x (t, some v.n) with
    | some env => .ok env
    | none => .error (.undeclared x)

end Env

/-- Runs a block in a frame of its own. -/
def State.inFrame (run : State → Bounded Fault State) (s : State) : Bounded Fault State := do
  let s ← run { s with env := s.env.push }
  return { s with env := s.env.pop }

/-- Runs statements, each run of a loop taking at most `bound` rounds. -/
def Code.run (bound : Nat) : Code → State → Bounded Fault State
  | .done, s => return s
  | .declare t x init rest, s => do
    let env ← Bounded.ofExcept (s.env.declare t x init)
    rest.run bound { s with env }
  | .assign x value rest, s => do
    let env ← Bounded.ofExcept (s.env.assign x value)
    rest.run bound { s with env }
  | .loop cond body rest, s => do
    let s ← iterate cond.holds (State.inFrame (body.run bound)) bound s
    rest.run bound s
  | .print printed rest, s => do
    let chars ← Bounded.ofExcept (printed.chars s.env)
    rest.run bound { s with output := s.output ++ chars }

def Main.run (bound : Nat) (main : Main) : Bounded Fault (List Char) := do
  let s ← main.body.run bound ⟨[[]], []⟩
  let _ ← Bounded.ofExcept (main.status.eval s.env)
  return s.output

/-- What the program in a text prints when it is run, each run of a loop taking at most `bound`
rounds. -/
def printedBy (text : String) (bound : Nat) : Option (Except Fault String) :=
  match Main.ofText text with
  | some main => ((main.run bound).run).map fun r => r.map String.ofList
  | none => some (.error .unreadable)

end WhileLang.C
