import WhileLang.Tree.Parser.State

/-!
# `WhileLang/Tree/Parser/Expression.lean` — expressions, by climbing the ladder of levels

An expression is an operand and then as many binary operators as **stand at or above a given
level**, each with a right operand read from the next level on. That alone makes every operator
group to the left and the tighter ones first.

Parentheses leave no trace: the expression between them is returned as it is, with the stretch it
has without them. An expression that is missing takes no token and becomes a hole.

## Why it ends

Before the parser calls itself it takes a token that is not the end of the file, so the number of
tokens in sight bounds the depth. The three functions count down from a depth; `ParseM.expr` turns
a bound on the tokens in sight into a depth that is enough.
-/

set_option autoImplicit false

namespace WhileLang

namespace ParseM

/-- Takes the token ahead as a whole expression. -/
def leaf (make : Node → Expr) : ParseM Expr := do
  let token ← ahead
  advance
  return make (← node token.span)

/-- Reports that an expression is missing. -/
def hole (context : ParseContext) : ParseM Expr := do
  let token ← ahead
  report .operand context
  return .hole (← node token.span)

mutual

/-- Reads an operand and the binary operators after it that stand at `level` or above. -/
def expression : Nat → ParseContext → Level → ParseM Expr
  | 0, context, _ => hole context
  | depth + 1, context, level => do
    let begin ← get
    let lhs ← operand depth context
    operators depth begin level lhs

/-- Reads a leaf, an operator with its operand, or an expression in parentheses. -/
def operand : Nat → ParseContext → ParseM Expr
  | 0, context => hole context
  | depth + 1, context => do
    let begin ← get
    match begin.ahead.lexeme with
    | .name s => leaf fun n => .var n ⟨s, n.span⟩
    | .literal v => leaf fun n => .int n v
    | .mark .true => leaf fun n => .bool n true
    | .mark .false => leaf fun n => .bool n false
    | .mark .parenL =>
      advance
      let e ← expression depth .parenthesis .lowest
      expect .parenR .parenthesis
      return e
    | .mark m =>
      match UnaryOp.ofMark? m with
      | some op =>
        advance
        let e ← expression depth .unaryOperand op.level
        return .unary (← nodeSince begin) op e
      | none => hole context

/-- Goes on after the operand `lhs`, which began at `begin`, as long as the token ahead is an
operator at `level` or above. -/
def operators : Nat → ParseState → Level → Expr → ParseM Expr
  | 0, _, _, lhs => return lhs
  | depth + 1, begin, level, lhs => do
    match (← ahead).lexeme with
    | .mark m =>
      match BinaryOp.ofMark? m with
      | some op =>
        if op.level.rank < level.rank then return lhs
        else
          advance
          let rhs ← expression depth (.rightOperand op) op.rightLevel
          let n ← nodeSince begin
          operators depth begin level (.binary n op lhs rhs)
      | none => return lhs
    | _ => return lhs

end

/-- Reads an expression in which any operator may stand, when at most `bound` tokens are in sight.
Two calls go by for every token: one for the expression it begins and one for its operand. -/
def expr (bound : Nat) (context : ParseContext) : ParseM Expr :=
  expression (2 * bound) context .lowest

end ParseM

end WhileLang
