import WhileLang.Proofs.Parser.Run
import WhileLang.Proofs.Token.Unplaced
import WhileLang.Proofs.Tree.Unplaced

/-!
# `WhileLang/Proofs/Parser/Unplaced.lean` — the parser does not look at places

The parser copies places into nodes and findings, and decides nothing by them. So **what it does
from an unplaced state is what it does from the state itself, unplaced** (`Mirrors`). That holds of
the steps that read or take a token, it is kept when steps are joined, and so it holds of the whole
parser, on malformed input too.
-/

set_option autoImplicit false

namespace WhileLang

/-! ## States -/

namespace ParseState

/-- A state without places. What was taken and numbered so far is the same. -/
def unplaced (s : ParseState) : ParseState :=
  { s with
    lexer := s.lexer.unplaced
    ahead := s.ahead.unplaced
    lastEnd := default
    log := s.log.unplaced }

@[simp] theorem lexeme_ahead_unplaced (s : ParseState) :
    s.unplaced.ahead.lexeme = s.ahead.lexeme := rfl

@[simp] theorem inSight_unplaced (s : ParseState) : s.unplaced.inSight = s.inSight := by
  simp [inSight, unplaced, Lexer.unplaced]

theorem start_unplaced (lexer : Lexer) (log : Log) :
    start lexer.unplaced log.unplaced = (start lexer log).unplaced := by
  unfold start
  rw [Lexer.next_unplaced]
  simp only [unplaced, Reading.diagnostics_unplaced, Log.unplaced_append]
  rfl

theorem advance_unplaced (s : ParseState) : s.unplaced.advance = s.advance.unplaced := by
  have hnext : s.unplaced.lexer.next = (s.lexer.next.1.unplaced, s.lexer.next.2.unplaced) :=
    s.lexer.next_unplaced
  unfold advance
  rw [hnext]
  simp only [unplaced, Reading.diagnostics_unplaced, Log.unplaced_append]
  rfl

theorem report_unplaced (e : Expected) (c : ParseContext) (s : ParseState) :
    s.unplaced.report e c = (s.report e c).unplaced := by
  simp only [report, unplaced, Log.unplaced_push]
  rfl

theorem spanSince_unplaced (begin s : ParseState) :
    begin.unplaced.spanSince s.unplaced = default := by
  unfold spanSince
  split <;> rfl

end ParseState

/-! ## Steps -/

namespace ParseM

/-- What `x'` does from an unplaced state is what `x` does from the state, unplaced. -/
def Mirrors {α : Type} (unplace : α → α) (x x' : ParseM α) : Prop :=
  ∀ s, x'.run s.unplaced = (unplace (x.run s).1, (x.run s).2.unplaced)

namespace Mirrors

theorem bind {α β : Type} {u : α → α} {v : β → β} {x x' : ParseM α} {f f' : α → ParseM β}
    (h : Mirrors u x x') (hf : ∀ a, Mirrors v (f a) (f' (u a))) :
    Mirrors v (x >>= f) (x' >>= f') := by
  intro s
  rw [run_bind, run_bind, h s]
  exact hf _ _

theorem pure {α : Type} {u : α → α} {a b : α} (h : b = u a) :
    Mirrors u (Pure.pure a) (Pure.pure b) := by
  intro s
  rw [run_pure, run_pure, h]

theorem get : Mirrors ParseState.unplaced MonadState.get MonadState.get := fun _ => rfl

theorem ahead : Mirrors Token.unplaced ParseM.ahead ParseM.ahead := fun _ => rfl

theorem advance : Mirrors id ParseM.advance ParseM.advance := by
  intro s
  rw [run_advance, run_advance, s.advance_unplaced, id]

theorem report (e : Expected) (c : ParseContext) :
    Mirrors id (ParseM.report e c) (ParseM.report e c) := by
  intro s
  show ((), s.unplaced.report e c) = ((), (s.report e c).unplaced)
  rw [ParseState.report_unplaced]

theorem expect (m : Mark) (c : ParseContext) :
    Mirrors id (ParseM.expect m c) (ParseM.expect m c) := by
  intro s
  rw [run_expect, run_expect]
  unfold ParseState.expect
  rw [ParseState.lexeme_ahead_unplaced]
  split
  · rw [s.advance_unplaced, id]
  · rw [s.report_unplaced, id]

theorem node (span : Span) : Mirrors Node.unplaced (ParseM.node span) (ParseM.node default) :=
  fun _ => rfl

theorem nodeSince (begin : ParseState) :
    Mirrors Node.unplaced (ParseM.nodeSince begin) (ParseM.nodeSince begin.unplaced) := by
  intro s
  rw [run_nodeSince, run_nodeSince, ParseState.nodeSince, ParseState.spanSince_unplaced]
  rfl

theorem declId : Mirrors id ParseM.declId ParseM.declId := fun _ => rfl

theorem symbol (c : ParseContext) :
    Mirrors Symbol.unplaced (ParseM.symbol c) (ParseM.symbol c) := by
  intro s
  rw [run_symbol, run_symbol]
  unfold ParseState.symbolAhead ParseState.afterSymbol
  rw [ParseState.lexeme_ahead_unplaced]
  cases s.ahead.lexeme with
  | name x =>
    simp only [s.advance_unplaced]
    rfl
  | mark m | literal v =>
    simp only [s.report_unplaced]
    rfl

theorem leaf {make make' : Node → Expr} (h : ∀ n, make' n.unplaced = (make n).unplaced) :
    Mirrors Expr.unplaced (ParseM.leaf make) (ParseM.leaf make') :=
  .bind .ahead fun t => .bind .advance fun _ => .bind (.node t.span) fun n => .pure (h n)

theorem hole (c : ParseContext) : Mirrors Expr.unplaced (ParseM.hole c) (ParseM.hole c) :=
  .bind .ahead fun t => .bind (.report _ _) fun _ => .bind (.node t.span) fun _ => .pure rfl

end Mirrors

/-! ## Expressions -/

/-- Expressions are read at this depth whatever their places are. -/
def ExpressionMirrors (depth : Nat) : Prop :=
  ∀ context level,
    Mirrors Expr.unplaced (expression depth context level) (expression depth context level)

def OperandMirrors (depth : Nat) : Prop :=
  ∀ context, Mirrors Expr.unplaced (operand depth context) (operand depth context)

def OperatorsMirror (depth : Nat) : Prop :=
  ∀ begin level lhs, Mirrors Expr.unplaced (operators depth begin level lhs)
    (operators depth begin.unplaced level lhs.unplaced)

section

variable {depth : Nat}

theorem expressionMirrors_succ (hO : OperandMirrors depth) (hR : OperatorsMirror depth) :
    ExpressionMirrors (depth + 1) := by
  intro context level
  rw [expression]
  exact .bind .get fun begin => .bind (hO context) fun lhs => hR begin level lhs

theorem operandMirrors_succ (hE : ExpressionMirrors depth) : OperandMirrors (depth + 1) := by
  intro context
  rw [operand]
  refine .bind .get fun begin => ?_
  rw [ParseState.lexeme_ahead_unplaced]
  cases begin.ahead.lexeme with
  | name x => exact .leaf fun _ => rfl
  | literal v => exact .leaf fun _ => rfl
  | mark m =>
    cases m with
    | «true» => exact .leaf fun _ => rfl
    | «false» => exact .leaf fun _ => rfl
    | parenL =>
      exact .bind .advance fun _ => .bind (hE _ _) fun e => .bind (.expect _ _) fun _ => .pure rfl
    | add | sub | not =>
      exact .bind .advance fun _ => .bind (hE _ _) fun e => .bind (.nodeSince begin) fun _ =>
        .pure rfl
    | _ => exact .hole context

theorem operatorsMirror_succ (hE : ExpressionMirrors depth) (hR : OperatorsMirror depth) :
    OperatorsMirror (depth + 1) := by
  intro begin level lhs
  rw [operators, operators]
  refine .bind .ahead fun token => ?_
  rw [token.lexeme_unplaced]
  cases token.lexeme with
  | name x => exact .pure rfl
  | literal v => exact .pure rfl
  | mark m =>
    dsimp only
    cases BinaryOp.ofMark? m with
    | none => exact .pure rfl
    | some op =>
      by_cases hlt : op.level.rank < level.rank
      · simp only [if_pos hlt]
        exact .pure rfl
      · simp only [if_neg hlt]
        exact .bind .advance fun _ => .bind (hE _ _) fun rhs => .bind (.nodeSince begin) fun n =>
          hR begin level (.binary n op lhs rhs)

end

theorem mirrors (depth : Nat) :
    ExpressionMirrors depth ∧ OperandMirrors depth ∧ OperatorsMirror depth := by
  induction depth with
  | zero =>
    refine ⟨fun context level => ?_, fun context => ?_, fun begin level lhs => ?_⟩
    · rw [expression]
      exact .hole context
    · rw [operand]
      exact .hole context
    · rw [operators, operators]
      exact .pure rfl
  | succ depth ih =>
    obtain ⟨hE, hO, hR⟩ := ih
    exact ⟨expressionMirrors_succ hO hR, operandMirrors_succ hE, operatorsMirror_succ hE hR⟩

theorem Mirrors.expr (bound : Nat) (context : ParseContext) :
    Mirrors Expr.unplaced (ParseM.expr bound context) (ParseM.expr bound context) :=
  (mirrors (2 * bound)).1 context .lowest

/-! ## Statements -/

theorem Mirrors.declaration (bound : Nat) (ty : Ty) :
    Mirrors Declaration.unplaced (ParseM.declaration bound ty) (ParseM.declaration bound ty) :=
  .bind .get fun begin => .bind .advance fun _ => .bind (.symbol _) fun _ =>
    .bind (.expect _ _) fun _ => .bind (.expr _ _) fun _ => .bind (.expect _ _) fun _ =>
      .bind .declId fun _ => .bind (.nodeSince begin) fun _ => .pure rfl

theorem Mirrors.assignment (bound : Nat) (x : String) :
    Mirrors Assignment.unplaced (ParseM.assignment bound x) (ParseM.assignment bound x) :=
  .bind .get fun begin => .bind .advance fun _ => .bind (.expect _ _) fun _ =>
    .bind (.expr _ _) fun _ => .bind (.expect _ _) fun _ =>
      .bind (.nodeSince begin) fun _ => .pure rfl

theorem Mirrors.statements (bound : Nat) :
    Mirrors Block.unplaced (ParseM.statements bound) (ParseM.statements bound) := by
  induction bound with
  | zero =>
    rw [ParseM.statements]
    exact .pure rfl
  | succ bound ih =>
    rw [ParseM.statements]
    refine .bind .get fun begin => ?_
    rw [ParseState.lexeme_ahead_unplaced]
    cases begin.ahead.lexeme with
    | name x => exact .bind (.assignment _ x) fun a => .bind ih fun rest => .pure rfl
    | literal v => exact .pure rfl
    | mark m =>
      cases m with
      | semicolon => exact .bind .advance fun _ => ih
      | int => exact .bind (.declaration _ .int) fun d => .bind ih fun rest => .pure rfl
      | bool => exact .bind (.declaration _ .bool) fun d => .bind ih fun rest => .pure rfl
      | «while» =>
        exact .bind .advance fun _ => .bind (.expr _ _) fun cond => .bind (.expect _ _) fun _ =>
          .bind .get fun bodyBegin => .bind ih fun body => .bind .get fun s =>
            .bind (.expect _ _) fun _ => .bind (.nodeSince begin) fun n => .bind ih fun rest =>
              .pure (by rw [ParseState.spanSince_unplaced]; rfl)
      | _ => exact .pure rfl

theorem Mirrors.program : Mirrors Program.unplaced ParseM.program ParseM.program := by
  refine .bind .get fun begin => ?_
  rw [ParseState.inSight_unplaced]
  exact .bind (.statements _) fun body => .bind .get fun s => .bind (.expect _ _) fun _ =>
    .bind (.expr _ _) fun result => .bind (.expect _ _) fun _ => .bind .get fun s' =>
      .bind (.expect _ _) fun _ =>
        .pure (by rw [ParseState.spanSince_unplaced, ParseState.spanSince_unplaced]; rfl)

end ParseM

/-! ## Sources -/

theorem Program.ofLexer_unplaced (lexer : Lexer) (log : Log) :
    ofLexer lexer.unplaced log.unplaced =
      ((ofLexer lexer log).1.unplaced, (ofLexer lexer log).2.unplaced) := by
  show ((ParseM.program.run (.start lexer.unplaced log.unplaced)).1,
    (ParseM.program.run (.start lexer.unplaced log.unplaced)).2.log) = _
  rw [ParseState.start_unplaced, ParseM.Mirrors.program]
  rfl

/-- **Lexers that are equal up to places are parsed to trees and findings that are.** -/
theorem Program.unplaced_ofLexer_eq {lexer lexer' : Lexer} (h : lexer.unplaced = lexer'.unplaced)
    (log : Log) :
    (ofLexer lexer log).1.unplaced = (ofLexer lexer' log).1.unplaced ∧
      (ofLexer lexer log).2.unplaced = (ofLexer lexer' log).2.unplaced := by
  have heq := ofLexer_unplaced lexer log
  rw [h, ofLexer_unplaced lexer' log, Prod.mk.injEq] at heq
  exact ⟨heq.1.symm, heq.2.symm⟩

end WhileLang
