import WhileLang.Proofs.Parser.Grammar
import WhileLang.Proofs.Tree.Regrouped

/-!
# `WhileLang/Proofs/Parser/Readback.lean` — the canonical lexemes are read back

The canonical lexemes of a whole tree are read back as **the tree regrouped and signed**: a
negation takes the tighter operator behind it into its operand, and a negative integer comes apart
into its sign and its digits. Everything else stands in parentheses of its own, so what follows an
expression is a closing one, or an operator that the expression leaves alone (`Yields`).
-/

set_option autoImplicit false

namespace WhileLang

/-! ## Expressions -/

theorem BinaryOp.rank_level_lt_sign (op : BinaryOp) : op.level.rank < Level.sign.rank := by
  cases op <;> decide

/-- No binary operator is ahead. -/
def NoOperator (ls : List Lexeme) : Prop :=
  ∀ op : BinaryOp, ls.head? ≠ some (.mark op.mark)

theorem NoOperator.mark {m : Mark} (hm : BinaryOp.ofMark? m = none) (ls : List Lexeme) :
    NoOperator (.mark m :: ls) := by
  intro op h
  obtain rfl : m = op.mark := Lexeme.mark.inj (Option.some.inj h)
  simp at hm

/-- Where no operator is ahead, every loop stops. -/
theorem NoOperator.stop {ls : List Lexeme} (h : NoOperator ls) (level : Level) (e : Expr) :
    MoreAt level e ls e ls :=
  .stop fun op hop => absurd hop (h op)

/-- What follows binds less tightly than the unary operator that the expression is, if it is
one. -/
def Yields (e : Expr) (rest : List Lexeme) : Prop :=
  ∀ n op e', e = .unary n op e' →
    ∀ b : BinaryOp, rest.head? = some (.mark b.mark) → b.level.rank < op.level.rank

theorem NoOperator.yields {rest : List Lexeme} (h : NoOperator rest) (e : Expr) :
    Yields e rest :=
  fun _ _ _ _ b hb => absurd hb (h b)

theorem ExprAt.of_operandAt {level : Level} {input rest : List Lexeme} {e : Expr}
    (h : OperandAt input e rest) (hr : NoOperator rest) : ExprAt level input e rest :=
  .ofOperand h (hr.stop level e)

theorem operandAt_intLexemes (n : Node) (v : Int64) (rest : List Lexeme) :
    OperandAt (intLexemes v ++ rest) (Expr.int n v).signed.bare rest := by
  rw [intLexemes, Expr.signed]
  split
  · show OperandAt (.mark UnaryOp.neg.mark :: .literal (-v) :: rest) _ rest
    apply OperandAt.unary
    exact .ofOperand .int (.stop fun op _ => op.rank_level_lt_sign)
  · exact .int

/-- An operator in parentheses of its own, with its operands. -/
theorem operandAt_binary {op : BinaryOp} {l r : Expr} {ls rs rest : List Lexeme}
    (hl : OperandAt (ls ++ .mark op.mark :: (rs ++ .mark .parenR :: rest)) l
      (.mark op.mark :: (rs ++ .mark .parenR :: rest)))
    (hr : OperandAt (rs ++ .mark .parenR :: rest) r (.mark .parenR :: rest)) :
    OperandAt (.mark .parenL :: (ls ++ .mark op.mark :: (rs ++ .mark .parenR :: rest)))
      (.binary .bare op l r) rest := by
  have hparen : NoOperator (.mark .parenR :: rest) := .mark rfl _
  have hmore : MoreAt .lowest l (.mark op.mark :: (rs ++ .mark .parenR :: rest))
      (.binary .bare op l r) (.mark .parenR :: rest) :=
    .step (Nat.zero_le _) (.of_operandAt hr hparen) (hparen.stop _ _)
  exact .parenthesis (.ofOperand hl hmore)

/-- A negation before a tighter operator, which it takes. -/
theorem operandAt_negation {op : BinaryOp} (hop : ¬op.level.rank < UnaryOp.not.level.rank)
    {e r : Expr} {ls rs rest : List Lexeme}
    (he : OperandAt (ls ++ .mark op.mark :: (rs ++ .mark .parenR :: rest)) e
      (.mark op.mark :: (rs ++ .mark .parenR :: rest)))
    (hr : OperandAt (rs ++ .mark .parenR :: rest) r (.mark .parenR :: rest)) :
    OperandAt (.mark .parenL :: .mark UnaryOp.not.mark ::
      (ls ++ .mark op.mark :: (rs ++ .mark .parenR :: rest)))
      (.unary .bare .not (.binary .bare op e r)) rest := by
  have hparen : NoOperator (.mark .parenR :: rest) := .mark rfl _
  have hmore : MoreAt UnaryOp.not.level e (.mark op.mark :: (rs ++ .mark .parenR :: rest))
      (.binary .bare op e r) (.mark .parenR :: rest) :=
    .step (Nat.le_of_not_lt hop) (.of_operandAt hr hparen) (hparen.stop _ _)
  exact .parenthesis (.of_operandAt (.unary (.ofOperand he hmore)) hparen)

theorem OperandAt.inParentheses {e : Expr} {ls rest : List Lexeme}
    (h : OperandAt (ls ++ .mark .parenR :: rest) e (.mark .parenR :: rest)) :
    OperandAt (.mark .parenL :: (ls ++ .mark .parenR :: rest)) e rest :=
  .parenthesis (.of_operandAt h (.mark rfl _))

theorem Expr.operandAt_lexemes {e : Expr} (h : e.Whole) {rest : List Lexeme}
    (hr : Yields e rest) : OperandAt (e.lexemes ++ rest) e.regrouped.signed.bare rest := by
  induction e using Expr.regrouped_induction generalizing rest with
  | loose n op l r hop ihl ihr =>
    have hparen : NoOperator (.mark .parenR :: rest) := .mark rfl _
    -- a unary operand is printed without parentheses, but it does not take `op` for its own
    have hyields : Yields l (.mark op.mark :: (r.lexemes ++ .mark .parenR :: rest)) := by
      intro n' op' e' he b hb
      obtain rfl := BinaryOp.mark_inj.1 (Lexeme.mark.inj (Option.some.inj hb))
      cases op' with
      | not => exact hop n' e' he
      | plus | neg => exact op.rank_level_lt_sign
    rw [regrouped_of_loose hop]
    simpa [lexemes, signed, bare] using
      operandAt_binary (ihl h.1 hyields) (ihr h.2 (hparen.yields r))
  | tight n op m e r hop ihe ihr =>
    have hparen (rest : List Lexeme) : NoOperator (.mark .parenR :: rest) := .mark rfl _
    have he : OperandAt (.mark .parenL :: (e.lexemes ++ [.mark .parenR]) ++
        .mark op.mark :: (r.lexemes ++ .mark .parenR :: rest)) e.regrouped.signed.bare
        (.mark op.mark :: (r.lexemes ++ .mark .parenR :: rest)) := by
      simpa using OperandAt.inParentheses (ihe h.1 ((hparen _).yields e))
    have hall := operandAt_negation hop he (ihr h.2 ((hparen rest).yields r))
    rw [regrouped_of_tight hop]
    simpa [lexemes, signed, bare] using hall
  | unary n op e ih =>
    have hparen : NoOperator (.mark .parenR :: rest) := .mark rfl _
    have hinner := OperandAt.inParentheses (ih h (hparen.yields e))
    -- the operand is in parentheses, so what follows is up to the operator
    have hop : ExprAt op.level (.mark .parenL :: (e.lexemes ++ .mark .parenR :: rest))
        e.regrouped.signed.bare rest := .ofOperand hinner (.stop (hr n op e rfl))
    simpa [lexemes, regrouped, signed, bare] using OperandAt.unary hop
  | bool n b => exact .bool
  | int n v => exact operandAt_intLexemes n v rest
  | var n s => exact .var
  | hole n => exact h.elim

theorem Expr.exprAt_lexemes {e : Expr} (h : e.Whole) (level : Level) {rest : List Lexeme}
    (hr : NoOperator rest) : ExprAt level (e.lexemes ++ rest) e.regrouped.signed.bare rest :=
  .of_operandAt (operandAt_lexemes h (hr.yields e)) hr

/-! ## Statements -/

theorem Ty.ofMark?_mark {t : Ty} (h : t ≠ .unknown) : Ty.ofMark? t.mark = some t := by
  cases t <;> first | rfl | exact absurd rfl h

/-- No statement is ahead. -/
def NoStatement (ls : List Lexeme) : Prop :=
  ∀ l, ls.head? = some l → ParseM.beginsStatement l = false

theorem NoStatement.mark {m : Mark} (hm : ParseM.beginsStatement (.mark m) = false)
    (ls : List Lexeme) : NoStatement (.mark m :: ls) := by
  intro l hl
  obtain rfl := Option.some.inj hl
  exact hm

theorem Block.blockAt_lexemes {b : Block} (h : b.Whole) {rest : List Lexeme}
    (hr : NoStatement rest) : BlockAt (b.lexemes ++ rest) b.regrouped.signed.shape rest := by
  induction b generalizing rest with
  | done => exact .done hr
  | declare d rest' ih =>
    obtain ⟨hinit, hty, -, hrest⟩ := h
    have he := Expr.exprAt_lexemes hinit .lowest
      (.mark (m := .semicolon) rfl (rest'.lexemes ++ rest))
    have hall := BlockAt.declare (x := d.symbol.name) (Ty.ofMark?_mark hty) he (ih hrest hr)
    simpa [lexemes, regrouped, signed, shape, Declaration.bare, Symbol.bare] using hall
  | assign a rest' ih =>
    have he := Expr.exprAt_lexemes h.1 .lowest
      (.mark (m := .semicolon) rfl (rest'.lexemes ++ rest))
    have hall := BlockAt.assign (x := a.symbol.name) he (ih h.2.2 hr)
    simpa [lexemes, regrouped, signed, shape, Assignment.bare, Symbol.bare] using hall
  | loop w body rest' ihb ihr =>
    have hc := Expr.exprAt_lexemes h.1 .lowest
      (.mark (m := .braceL) rfl (body.lexemes ++ .mark .braceR :: (rest'.lexemes ++ rest)))
    have hb := ihb h.2.1 (.mark (m := .braceR) rfl (rest'.lexemes ++ rest))
    simpa [lexemes, regrouped, signed, shape, LoopHead.bare] using
      BlockAt.loop hc hb (ihr h.2.2 hr)

/-- **The canonical lexemes of a whole program form that program**, regrouped and signed. -/
theorem Program.programAt_lexemes {p : Program} (h : p.Whole) :
    ProgramAt p.lexemes p.regrouped.signed.shape := by
  have hresult := Expr.exprAt_lexemes h.2 .lowest (.mark (m := .semicolon) rfl [])
  have hbody := Block.blockAt_lexemes h.1
    (.mark (m := .return) rfl (p.result.lexemes ++ [.mark .semicolon]))
  exact .mk hbody hresult

/-- **The canonical text of a whole program is parsed to that program**, regrouped and signed, and
nothing is reported. -/
theorem Program.ofSource_text_of_whole (file : FileId) {p : Program} (hw : p.Whole)
    {indent : Indent} (hi : indent.Blank) :
    let parsed := ofSource file (Source.ofString (p.text indent))
    parsed.1.shape = p.regrouped.signed.shape ∧ parsed.2 = .empty := by
  have hr := Program.reads_text hi hw
  have hchars := hr.chars_ofString
  exact ofSource_of_programAt file (hchars ▸ hr) (programAt_lexemes hw)

/-- The text of a well-typed program needs no regrouping. -/
theorem Program.ofSource_text (file : FileId) {p : Program} {ty : Ty} (ht : p.WellTyped ty)
    (hw : p.Whole) {indent : Indent} (hi : indent.Blank) :
    let parsed := ofSource file (Source.ofString (p.text indent))
    parsed.1.shape = p.signed.shape ∧ parsed.2 = .empty := by
  have h := ofSource_text_of_whole file hw hi
  rwa [(ht.readable hw).regrouped_eq_self] at h

end WhileLang
