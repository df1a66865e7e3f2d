import WhileLang.Evaluation
import WhileLang.Proofs.Scope.Frames

/-!
# `WhileLang/Proofs/Evaluation/Scoped.lean` — what a program means, by its names alone

The meaning of a block-structured language is usually told with a stack of frames from names to
values. This file tells it so, **without the tables of the checker and without declaration
numbers**: a declaration binds its name in the top frame, an assignment changes the innermost frame
that has the name, a variable is looked for from the inside out, and every round of a loop runs in
a fresh frame that is dropped afterwards.

The operators, the 64-bit arithmetic and the bound on rounds are those of `Program.eval`, so the two
can be compared round by round.
-/

set_option autoImplicit false

namespace WhileLang

/-- The values of the visible variables, by name. -/
abbrev Env := Frames Value

/-- The value of an expression. -/
def Expr.evalScoped (env : Env) : Expr → Except RunFault Value
  | .binary _ op l r => do
    let a ← l.evalScoped env
    let b ← r.evalScoped env
    op.apply a b
  | .unary _ op e => do
    let a ← e.evalScoped env
    op.apply a
  | .bool _ b => .ok (.bool b)
  | .int _ v => .ok (.int v)
  | .var _ s =>
    match env.read s.name with
    | some v => .ok v
    | none => .error (.unresolved s.name)
  | .hole _ => .error .hole

/-- The value of a condition. -/
def Expr.holdsScoped (env : Env) (e : Expr) : Except RunFault Bool := do
  match ← e.evalScoped env with
  | .bool b => .ok b
  | v => .error (.notBool v)

/-- The environment after an assignment. -/
def Env.assign (env : Env) (s : Symbol) (v : Value) : Except RunFault Env :=
  match env.write s.name v with
  | some env => .ok env
  | none => .error (.unresolved s.name)

/-- The environment after a block, each run of a loop taking at most `bound` rounds. -/
def Block.runScoped (bound : Nat) : Block → Env → Outcome Env
  | .done, env => return env
  | .declare d rest, env => do
    let v ← Bounded.ofExcept (d.init.evalScoped env)
    rest.runScoped bound (env.bind d.symbol.name v)
  | .assign a rest, env => do
    let v ← Bounded.ofExcept (a.value.evalScoped env)
    let env ← Bounded.ofExcept (env.assign a.symbol v)
    rest.runScoped bound env
  | .loop w body rest, env => do
    let round (env : Env) : Outcome Env := do
      let env ← body.runScoped bound env.push
      return env.pop
    let env ← iterate (fun env => w.cond.holdsScoped env) round bound env
    rest.runScoped bound env

/-- The value that a program returns, each run of a loop taking at most `bound` rounds. -/
def Program.evalScoped (p : Program) (bound : Nat) : Outcome Value := do
  let env ← p.body.runScoped bound [[]]
  Bounded.ofExcept (p.result.evalScoped env)

end WhileLang
