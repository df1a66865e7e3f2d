import WhileLang.Proofs.Python.Layout

/-!
# `WhileLang/Proofs/Python/Reader.lean` — tokens as a Python program

The statements that are read are assignments to a name, `while` loops, `pass` and calls of `print`
with one argument.

Operators bind as in Python. **`not` binds less tightly than a comparison**, so it cannot stand in
the operand of one, and `not (x) == y` negates the comparison. Comparisons stand on one level, and
several of them in sequence are a chain: each operand is compared with the next. The signs bind more
tightly than all operators between operands. `if` and `else` stand outside all of these.

As in the parser of the source language, the functions count down from a depth. A token is taken at
least every third time, so three times the number of tokens is always enough.
-/

set_option autoImplicit false

namespace WhileLang.Python

inductive Term where
  | constant (value : Nat)
  | truth (value : Bool)
  | string (content : List Char)
  | var (name : String)
  | unary (op : UnaryOp) (operand : Term)
  | binary (op : BinaryOp) (lhs rhs : Term)
  /-- `yes if cond else no` -/
  | choice (cond yes no : Term)
deriving DecidableEq, Repr

/-- Statements in sequence, each with those after it. -/
inductive Code where
  | done
  | assign (name : String) (value : Term) (rest : Code)
  | loop (cond : Term) (body rest : Code)
  | pass (rest : Code)
  | print (value : Term) (rest : Code)
deriving DecidableEq, Repr

def expect (t : Token) : List Token → Option (List Token)
  | t' :: ts => if t' = t then some ts else none
  | [] => none

/-! ## Terms -/

def Sign.binary? : Sign → Option BinaryOp
  | .op b => some b
  | _ => none

def Sign.unary? : Sign → Option UnaryOp
  | .op .add => some .plus
  | .op .sub => some .neg
  | .not => some .not
  | _ => none

def level : BinaryOp → Nat
  | .or => 1
  | .and => 2
  | .eq | .ne | .lt | .le | .gt | .ge => 4
  | .add | .sub => 5
  | .mul => 6

/-- The level on which an operator before an operand stands: an operator between operands that binds
more tightly cannot have it in an operand. -/
def unaryLevel : UnaryOp → Nat
  | .not => 3
  | .plus | .neg => 7

def isComparison (op : BinaryOp) : Bool :=
  level op = 4

/-- Two operands with an operator. When the first is a comparison already, with `last` for its
second operand, then it is that one which is compared. -/
def join (op : BinaryOp) (lhs : Term) (last : Option Term) (rhs : Term) : Term :=
  match last with
  | some middle =>
    if isComparison op then .binary .and lhs (.binary op middle rhs) else .binary op lhs rhs
  | none => .binary op lhs rhs

mutual

/-- Takes an operand and the operators after it that stand at `least` or above. -/
def readTerm : Nat → Nat → List Token → Option (Term × List Token)
  | 0, _, _ => none
  | depth + 1, least, ts => do
    let (lhs, ts) ← readOperand depth least ts
    readMore depth least lhs none ts

/-- Takes a literal, a variable, an expression in parentheses, or an operator and its operand. -/
def readOperand : Nat → Nat → List Token → Option (Term × List Token)
  | 0, _, _ => none
  | _ + 1, _, .number value :: ts => some (.constant value, ts)
  | _ + 1, _, .string content :: ts => some (.string content, ts)
  | _ + 1, _, .keyword .true :: ts => some (.truth true, ts)
  | _ + 1, _, .keyword .false :: ts => some (.truth false, ts)
  | _ + 1, _, .name x :: ts => some (.var x, ts)
  | depth + 1, _, .sign .parenL :: ts => do
    let (e, ts) ← readExpr depth ts
    let ts ← expect (.sign .parenR) ts
    return (e, ts)
  | depth + 1, least, .sign s :: ts => do
    let op ← s.unary?
    if unaryLevel op < least then none
    else
      let (operand, ts) ← readTerm depth (unaryLevel op) ts
      return (.unary op operand, ts)
  | _, _, _ => none

/-- Goes on after `lhs`, as long as an operator at `least` or above comes next. If `lhs` is a
comparison without parentheses then `last` is its second operand. -/
def readMore : Nat → Nat → Term → Option Term → List Token → Option (Term × List Token)
  | 0, _, _, _, _ => none
  | depth + 1, least, lhs, last, .sign s :: ts =>
    match s.binary? with
    | some op =>
      if level op < least then some (lhs, .sign s :: ts)
      else do
        -- operators of one level group to the left
        let (rhs, ts) ← readTerm depth (level op + 1) ts
        readMore depth least (join op lhs last rhs) (if isComparison op then some rhs else none) ts
    | none => some (lhs, .sign s :: ts)
  | _ + 1, _, lhs, _, ts => some (lhs, ts)

/-- Takes a whole expression. -/
def readExpr : Nat → List Token → Option (Term × List Token)
  | 0, _ => none
  | depth + 1, ts => do
    let (e, ts) ← readTerm depth 1 ts
    match ts with
    | .keyword .if :: ts =>
      let (cond, ts) ← readTerm depth 1 ts
      let ts ← expect (.keyword .else) ts
      let (no, ts) ← readExpr depth ts
      return (.choice cond e no, ts)
    | ts => return (e, ts)

end

def readWhole (ts : List Token) : Option (Term × List Token) :=
  readExpr (3 * ts.length + 3) ts

/-! ## Statements -/

/-- Takes statements up to the end of the block or the text, when there are at most so many. -/
def readCode : Nat → List Token → Option (Code × List Token)
  | 0, _ => none
  | _ + 1, [] => some (.done, [])
  | _ + 1, .dedent :: ts => some (.done, .dedent :: ts)
  | depth + 1, .keyword .while :: ts => do
    let (cond, ts) ← readWhole ts
    let ts ← expect (.sign .colon) ts
    let ts ← expect .newline ts
    let ts ← expect .indent ts
    let (body, ts) ← readCode depth ts
    let ts ← expect .dedent ts
    let (rest, ts) ← readCode depth ts
    return (.loop cond body rest, ts)
  | depth + 1, .keyword .pass :: ts => do
    let ts ← expect .newline ts
    let (rest, ts) ← readCode depth ts
    return (.pass rest, ts)
  | depth + 1, .keyword .print :: ts => do
    let ts ← expect (.sign .parenL) ts
    let (value, ts) ← readWhole ts
    let ts ← expect (.sign .parenR) ts
    let ts ← expect .newline ts
    let (rest, ts) ← readCode depth ts
    return (.print value rest, ts)
  | depth + 1, .name x :: ts => do
    let ts ← expect (.sign .assign) ts
    let (value, ts) ← readWhole ts
    let ts ← expect .newline ts
    let (rest, ts) ← readCode depth ts
    return (.assign x value rest, ts)
  | _ + 1, _ => none

/-- Takes the statements of a whole text. -/
def Code.ofText (text : String) : Option Code := do
  let ts ← blockTokens text.toList
  let (code, ts) ← readCode (ts.length + 1) ts
  if ts = [] then return code else none

end WhileLang.Python
