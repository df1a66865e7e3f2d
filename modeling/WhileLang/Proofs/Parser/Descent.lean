import WhileLang.Proofs.Parser.Numbering

/-!
# `WhileLang/Proofs/Parser/Descent.lean` — every source is read to its end

The functions of the parser count down from a depth, and so they end. What they are written for has
no depth in it: an expression is an operand and what follows that, a block is a statement and the
block after it, and each is read by a call that may never return. The relations of this file are
these calls. They have one constructor for every way a call can go, with a premise for every call it
makes, so **a call that returns is one that has a derivation**.

With the depth that the functions are given they come to the results of the calls and to no others
(`ParseM.programRun_iff`). So every source has a derivation and only one, whatever is wrong with it,
and **what it returns has its nodes and declarations counted without a gap**
(`Program.runs_ofSource`).
-/

set_option autoImplicit false

namespace WhileLang

namespace ParseM

open ParseState

mutual

/-- Reading an expression at a level, from the first state on, returns it in the last. -/
inductive ExprRun : ParseContext → Level → ParseState → Expr → ParseState → Prop where
  | intro {context : ParseContext} {level : Level} {s s₁ s₂ : ParseState} {lhs e : Expr} :
    OperandRun context s lhs s₁ → OperatorsRun s level lhs s₁ e s₂ → ExprRun context level s e s₂

inductive OperandRun : ParseContext → ParseState → Expr → ParseState → Prop where
  | var {context : ParseContext} {s : ParseState} {x : String} : s.ahead.lexeme = .name x →
    OperandRun context s (.var s.nodeAhead ⟨x, s.ahead.span⟩) s.advance.numberNode
  | int {context : ParseContext} {s : ParseState} {v : Int64} : s.ahead.lexeme = .literal v →
    OperandRun context s (.int s.nodeAhead v) s.advance.numberNode
  | bool {context : ParseContext} {s : ParseState} {b : Bool} :
    s.ahead.lexeme = .mark (if b then .true else .false) →
    OperandRun context s (.bool s.nodeAhead b) s.advance.numberNode
  | parenthesis {context : ParseContext} {s s₁ : ParseState} {e : Expr} :
    s.ahead.lexeme = .mark .parenL → ExprRun .parenthesis .lowest s.advance e s₁ →
    OperandRun context s e (s₁.expect .parenR .parenthesis)
  | unary {context : ParseContext} {s s₁ : ParseState} {op : UnaryOp} {e : Expr} :
    s.ahead.lexeme = .mark op.mark → ExprRun .unaryOperand op.level s.advance e s₁ →
    OperandRun context s (.unary (s.nodeSince s₁) op e) s₁.numberNode
  | hole {context : ParseContext} {s : ParseState} : beginsOperand s.ahead.lexeme = false →
    OperandRun context s (.hole s.nodeAhead) (s.report .operand context).numberNode

/-- Going on behind an operand, which began in the first state. -/
inductive OperatorsRun : ParseState → Level → Expr → ParseState → Expr → ParseState → Prop where
  | stop {begin s : ParseState} {level : Level} {lhs : Expr} :
    (∀ op : BinaryOp, s.ahead.lexeme = .mark op.mark → op.level.rank < level.rank) →
    OperatorsRun begin level lhs s lhs s
  | step {begin s s₁ s₂ : ParseState} {level : Level} {op : BinaryOp} {lhs rhs e : Expr} :
    s.ahead.lexeme = .mark op.mark → level.rank ≤ op.level.rank →
    ExprRun (.rightOperand op) op.rightLevel s.advance rhs s₁ →
    OperatorsRun begin level (.binary (begin.nodeSince s₁) op lhs rhs) s₁.numberNode e s₂ →
    OperatorsRun begin level lhs s e s₂

end

inductive BlockRun : ParseState → Block → ParseState → Prop where
  | done {s : ParseState} : beginsStatement s.ahead.lexeme = false → BlockRun s .done s
  | semicolon {s s₁ : ParseState} {b : Block} :
    s.ahead.lexeme = .mark .semicolon → BlockRun s.advance b s₁ → BlockRun s b s₁
  | declare {s s₁ s₂ : ParseState} {m : Mark} {ty : Ty} {init : Expr} {rest : Block} :
    s.ahead.lexeme = .mark m → Ty.ofMark? m = some ty →
    ExprRun .initializer .lowest s.beginDeclaration init s₁ →
    BlockRun (s₁.expect .semicolon .declarationEnd).numberDecl.numberNode rest s₂ →
    BlockRun s (.declare ⟨s.nodeSince (s₁.expect .semicolon .declarationEnd),
      ⟨(s₁.expect .semicolon .declarationEnd).nextDecl⟩, ty, s.advance.symbolAhead, init⟩ rest) s₂
  | assign {s s₁ s₂ : ParseState} {x : String} {value : Expr} {rest : Block} :
    s.ahead.lexeme = .name x →
    ExprRun .assignedValue .lowest s.beginAssignment value s₁ →
    BlockRun (s₁.expect .semicolon .assignmentEnd).numberNode rest s₂ →
    BlockRun s (.assign ⟨s.nodeSince (s₁.expect .semicolon .assignmentEnd), ⟨x, s.ahead.span⟩,
      value⟩ rest) s₂
  | loop {s s₁ s₂ s₃ : ParseState} {cond : Expr} {body rest : Block} :
    s.ahead.lexeme = .mark .while →
    ExprRun .condition .lowest s.advance cond s₁ →
    BlockRun (s₁.expect .braceL .loop) body s₂ →
    BlockRun (s₂.expect .braceR .loop).numberNode rest s₃ →
    BlockRun s (.loop ⟨s.nodeSince (s₂.expect .braceR .loop), cond,
      (s₁.expect .braceL .loop).spanSince s₂⟩ body rest) s₃

inductive ProgramRun : ParseState → Program → ParseState → Prop where
  | intro {s s₁ s₂ : ParseState} {body : Block} {result : Expr} :
    BlockRun s body s₁ → ExprRun .result .lowest (s₁.expect .return .program) result s₂ →
    ProgramRun s
      ⟨s.spanSince (s₂.expect .semicolon .resultEnd), s.spanSince s₁, body, result⟩
      ((s₂.expect .semicolon .resultEnd).expect .endOfFile .programEnd)

/-! ## Every call returns -/

theorem exprRun_cases : ExprCases ExprRun OperandRun OperatorsRun where
  ofOperand _ _ h h' := .intro h h'
  var := .var
  int := .int
  bool := .bool
  parenthesis ha _ h := .parenthesis ha h
  unary ha _ h := .unary ha h
  hole := .hole
  stop := .stop
  step ha hlevel _ _ h h' := .step ha hlevel h h'

theorem blockRun_cases : BlockCases (ExprRun · .lowest) BlockRun where
  done := .done
  semicolon ha _ h := .semicolon ha h
  declare ha hty _ h _ h' := .declare ha hty h h'
  assign ha _ h _ h' := .assign ha h h'
  loop ha _ h _ h' _ h'' := .loop ha h h' h''

/-- What the functions read, the calls return. -/
theorem programRun_run {s : ParseState} (he : s.Ends) :
    ProgramRun s (program.run s).1 (program.run s).2 := by
  obtain ⟨s₁, s₂, body, result, -, hbody, -, hresult, hrun⟩ :=
    blockRun_cases.program exprRun_cases he
  rw [hrun]
  exact .intro hbody hresult

/-! ## What a call returns -/

/-- An operand that begins with an operator. -/
theorem run_operand_unary (depth : Nat) (context : ParseContext) {s : ParseState} {op : UnaryOp}
    (ha : s.ahead.lexeme = .mark op.mark) :
    (operand (depth + 1) context).run s =
      let r := (expression depth .unaryOperand op.level).run s.advance
      (.unary (s.nodeSince r.2) op r.1, r.2.numberNode) := by
  rw [run_operand_succ, ha]
  cases op <;> rfl

theorem run_operand_hole (depth : Nat) (context : ParseContext) {s : ParseState}
    (ha : beginsOperand s.ahead.lexeme = false) :
    (operand (depth + 1) context).run s =
      (.hole s.nodeAhead, (s.report .operand context).numberNode) := by
  rw [run_operand_succ]
  cases hl : s.ahead.lexeme with
  | name x => simp [hl, beginsOperand] at ha
  | literal v => simp [hl, beginsOperand] at ha
  | mark m =>
    rw [hl] at ha
    cases m <;> first | rfl | cases ha

/-- From this depth on `a` is read, and the last state is the one that is left. -/
def Returns {α : Type} (read : Nat → ParseM α) (enough : Nat) (s : ParseState) (a : α)
    (s' : ParseState) : Prop :=
  ∀ depth, enough ≤ depth → (read depth).run s = (a, s')

namespace Returns

variable {context : ParseContext} {level : Level} {s s' : ParseState} {e : Expr} {b : Block}

/-- No function returns at depth zero. -/
theorem succ {α : Type} {read : Nat → ParseM α} {enough : Nat} {a : α}
    (h : ∀ depth, enough ≤ depth → (read (depth + 1)).run s = (a, s')) :
    Returns read (enough + 1) s a s' := by
  intro depth hd
  cases depth with
  | zero => cases hd
  | succ depth => exact h depth (Nat.le_of_succ_le_succ hd)

theorem leads_expression (he : s.Ends)
    (h : Returns (expression · context level) (2 * s.input.length + 2) s e s') : s.Leads s' := by
  have hleads := ((ExprCases.any.complete _).1 context level s he (Nat.le_refl _)).1
  rwa [h _ (Nat.le_refl _)] at hleads

theorem leads_operand (he : s.Ends)
    (h : Returns (operand · context) (2 * s.input.length + 1) s e s') : s.Leads s' := by
  have hleads := ((ExprCases.any.complete _).2.1 context s he (Nat.le_refl _)).1
  rwa [h _ (Nat.le_refl _)] at hleads

theorem leads_statements (he : s.Ends) (h : Returns statements (s.input.length + 1) s b s') :
    s.Leads s' := by
  have hleads := (BlockCases.any.complete .any _ s he (Nat.lt_succ_self _)).1
  rwa [h _ (Nat.le_refl _)] at hleads

end Returns

mutual

theorem ExprRun.returns {context : ParseContext} {level : Level} {s s' : ParseState} {e : Expr}
    (he : s.Ends) : ExprRun context level s e s' →
      Returns (expression · context level) (2 * s.input.length + 2) s e s'
  | .intro ho hr => by
    have ho := ho.returns he
    have hl := ho.leads_operand he
    have hlen := hl.length_le he
    have hr := hr.returns (hl.ends he)
    refine .succ fun depth hd => ?_
    -- both calls are made at the same depth, since a hole takes no token
    have ho := ho depth hd
    rw [run_expression_succ, ho]
    exact hr depth (by omega)

theorem OperandRun.returns {context : ParseContext} {s s' : ParseState} {e : Expr}
    (he : s.Ends) : OperandRun context s e s' →
      Returns (operand · context) (2 * s.input.length + 1) s e s'
  | .var ha => .succ fun depth _ => by rw [run_operand_succ, ha]
  | .int ha => .succ fun depth _ => by rw [run_operand_succ, ha]
  | @OperandRun.bool _ _ b ha => .succ fun depth _ => by
    rw [run_operand_succ, ha]
    cases b <;> rfl
  | .parenthesis ha h => by
    have hlen := length_input_advance he (by simp [ha])
    have h := h.returns he.advance
    refine .succ fun depth hd => ?_
    have h := h depth (by omega)
    rw [run_operand_succ, ha]
    show (((expression depth .parenthesis .lowest).run s.advance).1, _) = _
    rw [h]
  | @OperandRun.unary _ _ _ op _ ha h => by
    have hlen := length_input_advance he (by simpa [ha] using op.mark_ne_endOfFile)
    have h := h.returns he.advance
    refine .succ fun depth hd => ?_
    have h := h depth (by omega)
    rw [run_operand_unary depth context ha, h]
  | .hole ha => .succ fun depth _ => run_operand_hole depth context ha

theorem OperatorsRun.returns {begin s s' : ParseState} {level : Level} {lhs e : Expr}
    (he : s.Ends) : OperatorsRun begin level lhs s e s' →
      Returns (operators · begin level lhs) (2 * s.input.length + 1) s e s'
  | .stop ha => .succ fun depth _ => by
    rw [run_operators_succ]
    split
    · rename_i m hm
      split
      · rename_i op hop
        rw [BinaryOp.ofMark?_eq_some_iff] at hop
        rw [if_pos (ha op (hop ▸ hm))]
      · rfl
    · rfl
  | @OperatorsRun.step _ _ _ _ _ op _ _ _ ha hlevel h h' => by
    have hlen := length_input_advance he (by simpa [ha] using op.mark_ne_endOfFile)
    have h := h.returns he.advance
    have hl := h.leads_expression he.advance
    have hlen' := hl.length_le he.advance
    have h' := h'.returns (ends_numberNode.2 (hl.ends he.advance))
    refine .succ fun depth hd => ?_
    have h := h depth (by omega)
    have h' := h' depth (by rw [input_numberNode]; omega)
    rw [run_operators_succ, ha]
    simp only [BinaryOp.ofMark?_mark, if_neg (Nat.not_lt.2 hlevel), h]
    exact h'

end

theorem ExprRun.run_expr {context : ParseContext} {s s' : ParseState} {e : Expr} (he : s.Ends)
    (h : ExprRun context .lowest s e s') (bound : Nat) (hb : s.input.length < bound) :
    (expr bound context).run s = (e, s') :=
  h.returns he (2 * bound) (by omega)

theorem ExprRun.leads {context : ParseContext} {level : Level} {s s' : ParseState} {e : Expr}
    (he : s.Ends) (h : ExprRun context level s e s') : s.Leads s' :=
  (h.returns he).leads_expression he

theorem run_statements_done (bound : Nat) {s : ParseState}
    (ha : beginsStatement s.ahead.lexeme = false) :
    (statements (bound + 1)).run s = (.done, s) := by
  rw [run_statements_succ]
  cases hl : s.ahead.lexeme with
  | name x => simp [hl, beginsStatement] at ha
  | literal v => rfl
  | mark m =>
    rw [hl] at ha
    cases m <;> first | rfl | cases ha

theorem run_statements_declare (bound : Nat) {s : ParseState} {m : Mark} {ty : Ty}
    (ha : s.ahead.lexeme = .mark m) (hty : Ty.ofMark? m = some ty) :
    (statements (bound + 1)).run s =
      let d := (declaration (bound + 1) ty).run s
      let r := (statements bound).run d.2
      (.declare d.1 r.1, r.2) := by
  rw [run_statements_succ, ha]
  cases m <;> cases hty <;> rfl

theorem BlockRun.returns {s s' : ParseState} {b : Block} (h : BlockRun s b s') (he : s.Ends) :
    Returns statements (s.input.length + 1) s b s' := by
  induction h with
  | done ha => exact .succ fun bound _ => run_statements_done bound ha
  | @semicolon s s₁ b ha _ ih =>
    have hlen := length_input_advance he (by simp [ha])
    have ih := ih he.advance
    refine .succ fun bound hb => ?_
    rw [run_statements_succ, ha]
    exact ih bound (by omega)
  | @declare s s₁ s₂ m ty init rest ha hty hinit _ ih =>
    have hne := ahead_ne_endOfFile_of_type ha hty
    have hbegin := Leads.beginDeclaration s
    have hbe := hbegin.ends he.advance
    have hrest := hbegin.trans ((hinit.leads hbe).trans (.endDeclaration s₁))
    have hlen := hbegin.length_lt he hne
    have hlen' := hrest.length_lt he hne
    have ih := ih (hrest.ends he.advance)
    refine .succ fun bound hb => ?_
    have hinit := hinit.run_expr hbe (bound + 1) (by omega)
    have ih := ih bound (by omega)
    simp only [run_statements_declare bound ha hty, run_declaration, hinit, ih]
  | @assign s s₁ s₂ x value rest ha hvalue _ ih =>
    have hne : s.ahead.lexeme ≠ .mark .endOfFile := by simp [ha]
    have hbegin := Leads.beginAssignment s
    have hbe := hbegin.ends he.advance
    have hrest := hbegin.trans ((hvalue.leads hbe).trans (.endAssignment s₁))
    have hlen := hbegin.length_lt he hne
    have hlen' := hrest.length_lt he hne
    have ih := ih (hrest.ends he.advance)
    refine .succ fun bound hb => ?_
    have hvalue := hvalue.run_expr hbe (bound + 1) (by omega)
    have ih := ih bound (by omega)
    rw [run_statements_succ, ha]
    simp only [run_assignment, hvalue, ih]
  | @loop s s₁ s₂ s₃ cond body rest ha hcond _ _ ihb ihr =>
    have hne : s.ahead.lexeme ≠ .mark .endOfFile := by simp [ha]
    have hbody := (hcond.leads he.advance).trans (.expect (m := .braceL) (by simp) .loop s₁)
    have hlen := hbody.length_lt he hne
    have ihb := ihb (hbody.ends he.advance)
    have hrest := hbody.trans ((ihb.leads_statements (hbody.ends he.advance)).trans (.endLoop s₂))
    have hlen' := hrest.length_lt he hne
    have ihr := ihr (hrest.ends he.advance)
    refine .succ fun bound hb => ?_
    have hcond := hcond.run_expr he.advance (bound + 1) (by
      have := length_input_advance he hne
      omega)
    have ihb := ihb bound (by omega)
    have ihr := ihr bound (by omega)
    rw [run_statements_succ, ha]
    simp only [hcond, ihb, ihr]

/-- **The calls return what the functions read**, and nothing else. -/
theorem programRun_iff {s s' : ParseState} {p : Program} (he : s.Ends) :
    ProgramRun s p s' ↔ program.run s = (p, s') := by
  constructor
  · intro h
    cases h with
    | @intro s₁ s₂ body result hbody hresult =>
      have hbody := hbody.returns he
      have hlen := s.length_input_lt_inSight
      have hreturn := (hbody.leads_statements he).trans
        (.expect (m := .return) (by simp) .program s₁)
      have hlen' := hreturn.length_le he
      have hresult := hresult.run_expr (hreturn.ends he) s.inSight (by omega)
      have hbody := hbody s.inSight (by omega)
      simp only [run_program, hbody, hresult]
  · intro h
    have hrun := programRun_run he
    rwa [h] at hrun

end ParseM

/-- **Every source is read to its end, and what is read is counted without a gap.** The calls return
one program and no other. Its nodes, in the order in which they are finished, have the numbers from
zero on, its declarations have theirs in the order of the source, and of nodes there are at most two
for each token and one more. Where this bounds them by 2³², no counter begins anew. -/
theorem Program.runs_ofSource (file : FileId) (source : Source) :
    let p := (ofSource file source).1
    let tokens := (Lexer.ofSource file source).upcoming
    let decls := p.body.declarations.map (·.decl.index)
    ∃ s, (∀ p' s', ParseM.ProgramRun (.ofSource file source) p' s' ↔ p' = p ∧ s' = s) ∧
      p.numbers.length ≤ 2 * tokens.length + 1 ∧
      p.numbers = (List.range p.numbers.length).map .ofNat ∧
      decls = (List.range decls.length).map .ofNat ∧
      (p.numbers.length ≤ 4294967296 →
        p.numbers.map (·.toNat) = List.range p.numbers.length ∧
        decls.map (·.toNat) = List.range decls.length) ∧
      (source.length < 2147483648 →
        p.numbers.length < 4294967296 ∧ decls.length < 4294967296 ∧
        s.nextNode.toNat = p.numbers.length ∧ s.nextDecl.toNat = decls.length) := by
  intro p tokens decls
  have he := ParseState.ends_ofSource file source
  obtain ⟨s, k, h, -, -, hs⟩ := ParseState.gives_program he
  obtain ⟨hnodes, hdecls, hcount, hholes⟩ := numbered_ofSource file source
  have hcount : p.numbers.length ≤ 2 * tokens.length + 1 := by
    rw [Lexer.length_upcoming_ofSource]
    exact hcount.trans (by omega)
  have hmap : decls = p.body.declNumbers := (Block.declNumbers_eq_map _).symm
  have hle : decls.length ≤ p.numbers.length := hmap ▸ p.length_declNumbers_le
  have hdecls : Numbered 0 decls := hmap ▸ hdecls
  refine ⟨(ParseM.program.run (.ofSource file source)).2, fun p' s' => ?_, hcount, hnodes.eq_map,
    hdecls.eq_map, fun hl => ⟨hnodes.map_toNat hl, hdecls.map_toNat (hle.trans hl)⟩, fun hlt => ?_⟩
  · rw [ParseM.programRun_iff he, Prod.ext_iff, eq_comm, @eq_comm _ s']
    rfl
  · have htokens : tokens.length ≤ source.length := by
      rw [Lexer.length_upcoming_ofSource]
      exact length_lexemes_chars_le source
    have hl : p.numbers.length < 4294967296 := by omega
    have hld : decls.length < 4294967296 := hle.trans_lt hl
    -- the counters stand where they were left at the end of the file
    refine ⟨hl, hld, ?_, ?_⟩
    · rw [hs, ParseState.nextNode_expect, h.nextNode]
      exact toNat_afterNumbers hl
    · rw [hmap] at hld ⊢
      rw [hs, ParseState.nextDecl_expect, h.nextDecl]
      exact toNat_afterNumbers hld

/-- With nothing but operators there are as many nodes as there can be: each operator is one, and
has a hole on its right. -/
theorem Program.runs_ofSource_operators :
    let source := Source.ofString "**"
    let p := (ofSource ⟨0⟩ source).1
    let tokens := (Lexer.ofSource ⟨0⟩ source).upcoming
    (∃ s, ParseM.ProgramRun (.ofSource ⟨0⟩ source) p s) ∧
      p.numbers.length = 2 * tokens.length + 1 ∧
      p.numbers.map (·.toNat) = List.range p.numbers.length := by
  intro source p tokens
  obtain ⟨s, hrun, -, -, -, hexact, -⟩ := runs_ofSource ⟨0⟩ source
  have hcount : p.numbers.length = 5 ∧ tokens.length = 2 := by decide +kernel
  have hl : p.numbers.length ≤ 4294967296 := by omega
  exact ⟨⟨s, (hrun p s).2 ⟨rfl, rfl⟩⟩, by omega, (hexact hl).1⟩

end WhileLang
