import WhileLang.Evaluation
import WhileLang.Proofs.Python.Reader

/-!
# `WhileLang/Proofs/Python/Machine.lean` — running a Python program

Integers have no bounds. A truth value counts as 1 or 0 among numbers. `and` and `or` return one of
their operands, and **the second operand is evaluated only if the first does not decide**.

All variables of a script are in one scope: an assignment makes the variable or changes it, wherever
it stands. Reading one that was never assigned to ends the run in a fault, and so does an operator
on a string, for which there is no rule here.
-/

set_option autoImplicit false

namespace WhileLang.Python

inductive Fault where
  /-- The text is not of the form that is read. -/
  | unreadable
  | unbound (name : String)
  /-- An operator has an operand that is no number. -/
  | operand
deriving DecidableEq, Repr

inductive Value where
  | int (n : Int)
  | bool (b : Bool)
  | str (content : List Char)
deriving DecidableEq, Repr

namespace Value

/-- The value as a number. -/
def number? : Value → Option Int
  | .int n => some n
  | .bool b => some (if b then 1 else 0)
  | .str _ => none

/-- Whether the value counts as true. -/
def truthy : Value → Bool
  | .int n => n ≠ 0
  | .bool b => b
  | .str content => content ≠ []

/-- What an operator makes of two numbers. A connective is no operation on numbers. -/
def operate (a b : Int) : BinaryOp → Option Value
  | .add => some (.int (a + b))
  | .sub => some (.int (a - b))
  | .mul => some (.int (a * b))
  | .eq => some (.bool (a = b))
  | .ne => some (.bool (a ≠ b))
  | .lt => some (.bool (a < b))
  | .le => some (.bool (a ≤ b))
  | .gt => some (.bool (b < a))
  | .ge => some (.bool (b ≤ a))
  | .and | .or => none

def binary (op : BinaryOp) (v w : Value) : Except Fault Value :=
  match v.number?, w.number? with
  | some a, some b => (operate a b op).elim (.error .operand) .ok
  | _, _ => .error .operand

def unary : UnaryOp → Value → Except Fault Value
  | .plus, v => v.number?.elim (.error .operand) fun n => .ok (.int n)
  | .neg, v => v.number?.elim (.error .operand) fun n => .ok (.int (-n))
  | .not, v => .ok (.bool !v.truthy)

/-- The characters that `print` writes for the value. -/
def chars : Value → List Char
  | .int n => (toString n).toList
  | .bool b => (if b then "True" else "False").toList
  | .str content => content

end Value

/-- The variables, the one that was assigned to last first. -/
abbrev Env := List (String × Value)

def Term.eval (env : Env) : Term → Except Fault Value
  | .constant value => .ok (.int value)
  | .truth b => .ok (.bool b)
  | .string content => .ok (.str content)
  | .var x =>
    match env.lookup x with
    | some v => .ok v
    | none => .error (.unbound x)
  | .unary op e => do
    let v ← e.eval env
    v.unary op
  | .binary .and l r => do
    let v ← l.eval env
    if v.truthy then r.eval env else .ok v
  | .binary .or l r => do
    let v ← l.eval env
    if v.truthy then .ok v else r.eval env
  | .binary op l r => do
    let v ← l.eval env
    let w ← r.eval env
    Value.binary op v w
  | .choice cond yes no => do
    let v ← cond.eval env
    if v.truthy then yes.eval env else no.eval env

/-- The variables, and what was printed. -/
structure State where
  env : Env
  output : List Char
deriving DecidableEq, Repr

def Term.holds (cond : Term) (s : State) : Except Fault Bool := do
  let v ← cond.eval s.env
  .ok v.truthy

/-- Runs statements, each run of a loop taking at most `bound` rounds. -/
def Code.run (bound : Nat) : Code → State → Bounded Fault State
  | .done, s => return s
  | .assign x value rest, s => do
    let v ← Bounded.ofExcept (value.eval s.env)
    rest.run bound { s with env := (x, v) :: s.env }
  | .loop cond body rest, s => do
    let s ← iterate cond.holds (body.run bound) bound s
    rest.run bound s
  | .pass rest, s => rest.run bound s
  | .print value rest, s => do
    let v ← Bounded.ofExcept (value.eval s.env)
    rest.run bound { s with output := s.output ++ v.chars ++ ['\n'] }

/-- What the program in a text prints when it is run, each run of a loop taking at most `bound`
rounds. -/
def printedBy (text : String) (bound : Nat) : Option (Except Fault String) :=
  match Code.ofText text with
  | some code => ((code.run bound ⟨[], []⟩).run).map fun r => r.map fun s => String.ofList s.output
  | none => some (.error .unreadable)

end WhileLang.Python
