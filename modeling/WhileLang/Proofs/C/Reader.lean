import WhileLang.Proofs.C.Text

/-!
# `WhileLang/Proofs/C/Reader.lean` — tokens as a C program

The programs that are read consist of one function `main`, with declarations, assignments, `while`
loops, calls of `printf` and, at the end, a `return`. Both headers must be included, since `bool`
comes from the one and `printf` from the other. In a call of `printf` the format is a string
literal, or one of two that a condition chooses.

Operators bind as in C: **all that stand before an operand bind tighter than all between operands**,
`!` and casts among them, and those between operands stand on six levels and group to the left.

As in the parser of the source language, the functions count down from a depth. A token is taken at
least every second time, so twice the number of tokens is always enough.
-/

set_option autoImplicit false

namespace WhileLang.C

inductive Ty where
  | bool | int | long | longLong
deriving DecidableEq, Repr

inductive Term where
  /-- A constant: it has the first type from `least` on that has its value. -/
  | constant (least : Ty) (value : Nat)
  | var (name : String)
  | unary (op : UnaryOp) (operand : Term)
  | binary (op : BinaryOp) (lhs rhs : Term)
  | cast (ty : Ty) (operand : Term)
deriving DecidableEq, Repr

/-- What a call of `printf` prints. -/
inductive Printed where
  | format (content : List Char) (arguments : List Term)
  | choice (cond : Term) (yes no : List Char)
deriving DecidableEq, Repr

/-- Statements in sequence, each with those after it. -/
inductive Code where
  | done
  | declare (ty : Ty) (name : String) (init : Term) (rest : Code)
  | assign (name : String) (value : Term) (rest : Code)
  | loop (cond : Term) (body rest : Code)
  | print (printed : Printed) (rest : Code)
deriving DecidableEq, Repr

/-- The function `main`: its statements, and what it returns at the end. -/
structure Main where
  body : Code
  status : Term
deriving DecidableEq, Repr

def expect (s : Sign) : List Token → Option (List Token)
  | .sign s' :: ts => if s' = s then some ts else none
  | _ => none

def readTy : List Token → Option (Ty × List Token)
  | .keyword .bool :: ts => some (.bool, ts)
  | .keyword .int :: ts => some (.int, ts)
  | .keyword .long :: .keyword .long :: ts => some (.longLong, ts)
  | .keyword .long :: ts => some (.long, ts)
  | _ => none

/-! ## Terms -/

def Sign.binary? : Sign → Option BinaryOp
  | .op b => some b
  | _ => none

def Sign.unary? : Sign → Option UnaryOp
  | .op .add => some .plus
  | .op .sub => some .neg
  | .not => some .not
  | _ => none

def level : BinaryOp → Nat
  | .or => 1
  | .and => 2
  | .eq | .ne => 3
  | .lt | .le | .gt | .ge => 4
  | .add | .sub => 5
  | .mul => 6

/-- The first type that a constant with these letters after it may have. -/
def Ty.ofSuffix? (suffix : String) : Option Ty :=
  [("", .int), ("l", .long), ("L", .long), ("ll", .longLong), ("LL", .longLong)].lookup suffix

mutual

/-- Takes an operand and the operators after it that stand at `least` or above. -/
def readTerm : Nat → Nat → List Token → Option (Term × List Token)
  | 0, _, _ => none
  | depth + 1, least, ts => do
    let (lhs, ts) ← readOperand depth ts
    readMore depth least lhs ts

/-- Takes a constant, a variable, a term in parentheses, or an operator or cast and its operand. -/
def readOperand : Nat → List Token → Option (Term × List Token)
  | 0, _ => none
  | _ + 1, .number value suffix :: ts => do
    let least ← Ty.ofSuffix? suffix
    return (.constant least value, ts)
  | _ + 1, .keyword .true :: ts => some (.constant .int 1, ts)
  | _ + 1, .keyword .false :: ts => some (.constant .int 0, ts)
  | _ + 1, .name x :: ts => some (.var x, ts)
  | depth + 1, .sign .parenL :: ts =>
    -- the name of a type in parentheses makes a cast, and no term begins with one
    match readTy ts with
    | some (ty, ts) => do
      let ts ← expect .parenR ts
      let (operand, ts) ← readOperand depth ts
      return (.cast ty operand, ts)
    | none => do
      let (e, ts) ← readTerm depth 0 ts
      let ts ← expect .parenR ts
      return (e, ts)
  | depth + 1, .sign s :: ts => do
    let op ← s.unary?
    let (operand, ts) ← readOperand depth ts
    return (.unary op operand, ts)
  | _, _ => none

/-- Goes on after the operand `lhs`, as long as an operator at `least` or above comes next. -/
def readMore : Nat → Nat → Term → List Token → Option (Term × List Token)
  | 0, _, _, _ => none
  | depth + 1, least, lhs, .sign s :: ts =>
    match s.binary? with
    | some op =>
      if level op < least then some (lhs, .sign s :: ts)
      else do
        -- operators of one level group to the left
        let (rhs, ts) ← readTerm depth (level op + 1) ts
        readMore depth least (.binary op lhs rhs) ts
    | none => some (lhs, .sign s :: ts)
  | _ + 1, _, lhs, ts => some (lhs, ts)

end

def readWhole (ts : List Token) : Option (Term × List Token) :=
  readTerm (2 * ts.length + 2) 0 ts

/-! ## Statements -/

/-- Takes arguments, each after a comma, when there are at most so many. -/
def readArguments : Nat → List Token → Option (List Term × List Token)
  | depth + 1, .sign .comma :: ts => do
    let (e, ts) ← readWhole ts
    let (es, ts) ← readArguments depth ts
    return (e :: es, ts)
  | _, ts => some ([], ts)

/-- Takes what stands between the parentheses of a call of `printf`. -/
def readPrinted : List Token → Option (Printed × List Token)
  | .string content :: ts => do
    let (arguments, ts) ← readArguments ts.length ts
    return (.format content arguments, ts)
  | ts => do
    let (cond, ts) ← readWhole ts
    match ts with
    | .sign .question :: .string yes :: .sign .colon :: .string no :: ts =>
      return (.choice cond yes no, ts)
    | _ => none

/-- Takes a name, `=`, a value and `;`. -/
def readAssigned : List Token → Option (String × Term × List Token)
  | .name x :: .sign .assign :: ts => do
    let (value, ts) ← readWhole ts
    let ts ← expect .semicolon ts
    return (x, value, ts)
  | _ => none

/-- Takes statements up to a `return` or the end of the block, when there are at most so many. -/
def readCode : Nat → List Token → Option (Code × List Token)
  | 0, _ => none
  | _ + 1, .keyword .return :: ts => some (.done, .keyword .return :: ts)
  | _ + 1, .sign .braceR :: ts => some (.done, .sign .braceR :: ts)
  | depth + 1, .keyword .while :: ts => do
    let ts ← expect .parenL ts
    let (cond, ts) ← readWhole ts
    let ts ← expect .parenR ts
    let ts ← expect .braceL ts
    let (body, ts) ← readCode depth ts
    let ts ← expect .braceR ts
    let (rest, ts) ← readCode depth ts
    return (.loop cond body rest, ts)
  | depth + 1, .keyword .printf :: ts => do
    let ts ← expect .parenL ts
    let (printed, ts) ← readPrinted ts
    let ts ← expect .parenR ts
    let ts ← expect .semicolon ts
    let (rest, ts) ← readCode depth ts
    return (.print printed rest, ts)
  | depth + 1, .name x :: ts => do
    let (x, value, ts) ← readAssigned (.name x :: ts)
    let (rest, ts) ← readCode depth ts
    return (.assign x value rest, ts)
  | depth + 1, ts => do
    let (ty, ts) ← readTy ts
    let (x, init, ts) ← readAssigned ts
    let (rest, ts) ← readCode depth ts
    return (.declare ty x init rest, ts)

/-- Takes the function `main`, after which nothing may come. -/
def readMain : List Token → Option Main
  | .keyword .int :: .name "main" :: .sign .parenL :: .sign .parenR :: .sign .braceL :: ts => do
    let (body, ts) ← readCode ts.length ts
    match ts with
    | .keyword .return :: ts =>
      let (status, ts) ← readWhole ts
      let ts ← expect .semicolon ts
      let ts ← expect .braceR ts
      if ts = [] then return ⟨body, status⟩ else none
    | _ => none
  | _ => none

/-- The headers that the directives at the beginning include, and what comes after these. -/
def takeDirectives : List Token → List String × List Token
  | .directive text :: ts =>
    let (texts, ts) := takeDirectives ts
    (text :: texts, ts)
  | ts => ([], ts)

def Main.ofText (text : String) : Option Main := do
  let (directives, ts) := takeDirectives (← tokens text.toList)
  if directives = ["include <stdbool.h>", "include <stdio.h>"] then readMain ts else none

end WhileLang.C
