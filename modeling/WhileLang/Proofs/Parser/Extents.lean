import WhileLang.Proofs.Parser.Accepts
import WhileLang.Proofs.Parser.Progress
import WhileLang.Proofs.Parser.Readback

/-!
# `WhileLang/Proofs/Parser/Extents.lean` — what a node was read from, it can be read from again

The span of a node runs from the token that was ahead when the node was begun to the token taken
last when it was finished. In a parse without complaints **the lexemes taken in between are read as
that node wherever no operator follows them** (`ReadsAs`): in the place of the node, in parentheses,
or in a program of their own.

What is behind an expression decides how far the loop goes, so an expression is not read alike
before everything. But the loop looks only at the operator that is ahead. An operand, or what the
loop has put together so far, is read alike before every text that goes on with no operator or with
the one that was ahead there (`Follows`); in particular where it is the left operand of its node,
and where nothing follows. So the induction carries, for what was read from the begin of an
expression to the token ahead, that **the loop can resume behind it** (`Resumes`).
-/

set_option autoImplicit false

namespace WhileLang

/-! ## Reading before something else -/

/-- If an operator is ahead of `rest`, the same is ahead of `input`. -/
def Follows (input rest : List Lexeme) : Prop :=
  ∀ op : BinaryOp, rest.head? = some (.mark op.mark) → input.head? = some (.mark op.mark)

theorem NoOperator.follows {rest : List Lexeme} (h : NoOperator rest) (input : List Lexeme) :
    Follows input rest :=
  fun op hop => absurd hop (h op)

theorem Below.of_follows {level : Level} {input rest : List Lexeme} (hb : Below level input)
    (h : Follows input rest) : Below level rest :=
  fun op hop => hb op (h op hop)

theorem NoOperator.below {rest : List Lexeme} (h : NoOperator rest) (level : Level) :
    Below level rest :=
  fun op hop => absurd hop (h op)

/-- What a loop has taken, a loop of a lower level takes as well. -/
theorem MoreAt.loosen {level level' : Level} {lhs e : Expr} {input rest : List Lexeme}
    (h : MoreAt level lhs input e rest) (hle : level'.rank ≤ level.rank)
    (hb : Below level' rest) : MoreAt level' lhs input e rest :=
  match h with
  | .stop _ => .stop hb
  | .step hop hrhs hmore => .step (hle.trans hop) hrhs (hmore.loosen hle hb)

theorem ExprAt.loosen {level level' : Level} {e : Expr} {input rest : List Lexeme}
    (h : ExprAt level input e rest) (hle : level'.rank ≤ level.rank) (hb : Below level' rest) :
    ExprAt level' input e rest := by
  cases h with
  | ofOperand hlhs hmore => exact .ofOperand hlhs (hmore.loosen hle hb)

/-- The lexemes are read as the expression where no operator follows. -/
def ReadsAs (e : Expr) (ls : List Lexeme) : Prop :=
  ∀ rest, NoOperator rest → ExprAt .lowest (ls ++ rest) e.bare rest

/-- The lexemes are read as the statements where no statement follows. -/
def ReadsAsBlock (b : Block) (ls : List Lexeme) : Prop :=
  ∀ rest, NoStatement rest → BlockAt (ls ++ rest) b.shape rest

/-- Behind the lexemes the loop goes on with `e`, before the input and all that goes on like it. -/
def Resumes (level : Level) (e : Expr) (ls input : List Lexeme) : Prop :=
  ∀ rest e' rest', Follows input rest → MoreAt level e.bare rest e' rest' →
    ExprAt level (ls ++ rest) e' rest'

namespace Resumes

variable {level : Level} {e : Expr} {ls input : List Lexeme}

/-- Where the loop stops before the input, it stops before all that goes on like it. -/
theorem exprAt (h : Resumes level e ls input) (hb : Below level input) {rest : List Lexeme}
    (hf : Follows input rest) : ExprAt level (ls ++ rest) e.bare rest :=
  h rest _ rest hf (.stop (hb.of_follows hf))

theorem readsAs (h : Resumes level e ls input) : ReadsAs e ls := by
  intro rest hrest
  have hread := h rest _ rest (hrest.follows input) (hrest.stop level e.bare)
  exact hread.loosen (Nat.zero_le _) (hrest.below _)

end Resumes

/-- The lexemes of a statement, in front of those of a block. -/
def Heads (statement : Block → Block) (ls : List Lexeme) : Prop :=
  ∀ b mid rest, BlockAt mid b.shape rest → BlockAt (ls ++ mid) (statement b).shape rest

namespace Heads

variable {es bs : List Lexeme}

theorem declare {m : Mark} {d : Declaration} (hty : Ty.ofMark? m = some d.ty)
    (h : ReadsAs d.init es) : Heads (.declare d) (.mark m :: .name d.symbol.name ::
      .mark .assign :: (es ++ [.mark .semicolon])) := by
  intro b mid rest hb
  have hinit := h (.mark .semicolon :: mid) (.mark rfl mid)
  have hall := BlockAt.declare (x := d.symbol.name) hty hinit hb
  simpa [Block.shape, Declaration.bare, Symbol.bare] using hall

theorem assign {a : Assignment} (h : ReadsAs a.value es) :
    Heads (.assign a) (.name a.symbol.name :: .mark .assign :: (es ++ [.mark .semicolon])) := by
  intro b mid rest hb
  have hvalue := h (.mark .semicolon :: mid) (.mark rfl mid)
  have hall := BlockAt.assign (x := a.symbol.name) hvalue hb
  simpa [Block.shape, Assignment.bare, Symbol.bare] using hall

theorem loop {w : LoopHead} {body : Block} (hc : ReadsAs w.cond es)
    (hbody : ReadsAsBlock body bs) :
    Heads (.loop w body) (.mark .while :: (es ++ .mark .braceL :: (bs ++ [.mark .braceR]))) := by
  intro b mid rest hb
  have hcond := hc (.mark .braceL :: (bs ++ .mark .braceR :: mid)) (.mark rfl _)
  have hall := BlockAt.loop hcond (hbody _ (.mark rfl mid)) hb
  simpa [Block.shape, LoopHead.bare] using hall

end Heads

/-- The statements of a block, loop bodies included, each with its node and as a block of its
own. -/
def Block.statements : Block → List (Node × Block)
  | .done => []
  | .declare d rest => (d.node, .declare d .done) :: rest.statements
  | .assign a rest => (a.node, .assign a .done) :: rest.statements
  | .loop w body rest => (w.node, .loop w body .done) :: body.statements ++ rest.statements

namespace ParseState

/-! ## Spans and states -/

/-- The lexemes were taken between the two states, and the span is from the first of them to the
last. -/
structure Stretch (s s' : ParseState) (span : Span) (ls : List Lexeme) : Prop where
  leads : s.Leads s'
  taken : s.taken < s'.taken
  input : s.input = ls ++ s'.input
  first : span.first = s.ahead.span.first
  last : span.last = s'.lastEnd

/-- Somewhere on from `s`, lexemes of the kind stand in the span. -/
def Delimits (s : ParseState) (span : Span) (P : List Lexeme → Prop) : Prop :=
  ∃ s₁ s₂ ls, s.Leads s₁ ∧ s₁.Stretch s₂ span ls ∧ P ls

theorem Delimits.of_leads {s s' : ParseState} {span : Span} {P : List Lexeme → Prop}
    (h : s'.Delimits span P) (hl : s.Leads s') : s.Delimits span P := by
  obtain ⟨s₁, s₂, ls, hl₁, hs, hP⟩ := h
  exact ⟨s₁, s₂, ls, hl.trans hl₁, hs, hP⟩

/-- A node that was begun and is finished now. -/
theorem Stretch.nodeSince {s s' : ParseState} {ls : List Lexeme} (hl : s.Leads s')
    (hlt : s.taken < s'.taken) (hin : s.input = ls ++ s'.input) :
    s.Stretch s' (s.nodeSince s').span ls := by
  have hspan : (s.nodeSince s').span = _ := spanSince_of_lt hlt
  exact ⟨hl, hlt, hin, by rw [hspan], by rw [hspan]⟩

theorem Takes.imp_input {s s' : ParseState} {P Q : List Lexeme → Prop} (h : s.Takes s' P)
    (f : ∀ ls, s.input = ls ++ s'.input → P ls → Q ls) : s.Takes s' Q := by
  refine Tells.imp h ?_
  rintro ⟨ls, hls, hP⟩
  exact ⟨ls, hls, f ls hls hP⟩

/-! ## Expressions -/

/-- Every node of the expression can be read from its own stretch. -/
def DelimitsNodes (s : ParseState) (e : Expr) : Prop :=
  ∀ x ∈ e.nodes, s.Delimits x.span (ReadsAs x)

/-- An operand and its lexemes, read on the way from `s` to `s'`. -/
structure OperandExtent (s : ParseState) (e : Expr) (s' : ParseState) (ls : List Lexeme) :
    Prop where
  leads : s.Leads s'
  taken : s.taken < s'.taken
  input : s.input = ls ++ s'.input
  operandAt : ∀ rest, Follows s'.input rest → OperandAt (ls ++ rest) e.bare rest
  nodes : s.DelimitsNodes e

/-- What the loop has come to from `begin` on. -/
structure ExprExtent (level : Level) (begin : ParseState) (e : Expr) (s : ParseState)
    (ls : List Lexeme) : Prop where
  leads : begin.Leads s
  taken : begin.taken < s.taken
  input : begin.input = ls ++ s.input
  resumes : Resumes level e ls s.input
  nodes : begin.DelimitsNodes e

namespace ExprExtent

variable {level : Level} {begin s s₁ : ParseState} {op : BinaryOp} {lhs rhs : Expr}
variable {ls rs : List Lexeme}

theorem ofOperand (h : OperandExtent s lhs s₁ ls) : ExprExtent level s lhs s₁ ls where
  leads := h.leads
  taken := h.taken
  input := h.input
  resumes _ _ _ hf hmore := .ofOperand (h.operandAt _ hf) hmore
  nodes := h.nodes

theorem numberNode (h : ExprExtent level begin lhs s ls) :
    ExprExtent level begin lhs s.numberNode ls :=
  ⟨h.leads.trans (.numberNode s), h.taken, h.input, h.resumes, h.nodes⟩

/-- A round of the loop: the operator that is ahead, and its right operand. -/
theorem step (h : ExprExtent level begin lhs s ls) (ha : s.ahead.lexeme = .mark op.mark)
    (hin : s.input = .mark op.mark :: s.advance.input) (hle : level.rank ≤ op.level.rank)
    (hr : ExprExtent op.rightLevel s.advance rhs s₁ rs) (hb : Below op.rightLevel s₁.input) :
    ExprExtent level begin (.binary (begin.nodeSince s₁) op lhs rhs) s₁
      (ls ++ .mark op.mark :: rs) := by
  have hadvance : s.Leads s.advance := .advance (by simpa [ha] using op.mark_ne_endOfFile)
  have hl := (h.leads.trans hadvance).trans hr.leads
  have htaken : begin.taken < s₁.taken :=
    (h.taken.trans_le hadvance.taken_le).trans hr.taken
  have hinput : begin.input = (ls ++ .mark op.mark :: rs) ++ s₁.input := by
    rw [h.input, hin, hr.input, List.append_assoc, List.cons_append]
  have hresumes : Resumes level (.binary (begin.nodeSince s₁) op lhs rhs)
      (ls ++ .mark op.mark :: rs) s₁.input := by
    intro rest e' rest' hf hmore
    rw [List.append_assoc, List.cons_append]
    refine h.resumes _ _ _ ?_ (.step hle (hr.resumes.exprAt hb hf) hmore)
    rw [hin]
    exact fun op' hop => hop
  refine ⟨hl, htaken, hinput, hresumes, fun x hx => ?_⟩
  rw [Expr.nodes, List.mem_append, List.mem_append, List.mem_singleton] at hx
  rcases hx with (hx | hx) | rfl
  · exact h.nodes x hx
  · exact (hr.nodes x hx).of_leads (h.leads.trans hadvance)
  · exact ⟨begin, s₁, _, .refl begin, .nodeSince hl htaken hinput, hresumes.readsAs⟩

end ExprExtent

/-- An operand of one lexeme. -/
theorem operandExtent_leaf {s : ParseState} {l : Lexeme} {e : Expr} (ha : s.ahead.lexeme = l)
    (hl : l ≠ .mark .endOfFile) (hspan : e.span = s.ahead.span) (hnodes : e.nodes = [e])
    (hread : ∀ rest, OperandAt (l :: rest) e.bare rest) :
    s.Takes s.advance.numberNode (OperandExtent s e s.advance.numberNode) := by
  refine (Takes.advance ha hl).numberNode.imp_input ?_
  rintro _ hin rfl
  have hadvance : s.Leads s.advance := .advance (ha ▸ hl)
  have hstretch : s.Stretch s.advance e.span [l] :=
    ⟨hadvance, Nat.lt_succ_self _, hin, by rw [hspan], by rw [hspan]; rfl⟩
  refine ⟨hadvance.trans (.numberNode _), Nat.lt_succ_self _, hin, fun rest _ => hread rest, ?_⟩
  intro x hx
  obtain rfl : x = e := by simpa [hnodes] using hx
  exact ⟨s, s.advance, [l], .refl s, hstretch, fun rest hrest => .of_operandAt (hread rest) hrest⟩

/-- What follows an operand goes on with what the loop has come to so far. -/
def MoreExtent (begin : ParseState) (level : Level) (lhs : Expr) (s : ParseState) (e : Expr)
    (s' : ParseState) (ls : List Lexeme) : Prop :=
  ∀ ks, ExprExtent level begin lhs s ks →
    ExprExtent level begin e s' (ks ++ ls) ∧ Below level s'.input

/-- **Whatever way the parser takes to an expression**, it reads each node where the span of the
node says. -/
theorem extent_expr_cases : ParseM.ExprCases
    (fun _ level s e s' => s.Takes s' fun ls => ExprExtent level s e s' ls ∧ Below level s'.input)
    (fun _ s e s' => s.Takes s' (OperandExtent s e s'))
    (fun begin level lhs s e s' => s.Takes s' (MoreExtent begin level lhs s e s')) where
  ofOperand _ _ hO hR := by
    refine (hO.trans hR).imp ?_
    rintro _ ⟨os, ts, rfl, ho, ht⟩
    exact ht os (.ofOperand ho)
  var {_ s x} ha := operandExtent_leaf ha (by simp) rfl rfl fun _ => .var
  int {_ s v} ha := operandExtent_leaf ha (by simp) rfl rfl fun _ => .int
  bool {_ s b} ha := operandExtent_leaf ha (by cases b <;> simp) rfl rfl fun _ => .bool
  parenthesis {_ s s₁ e} ha _ hE := by
    have hadvance : s.Leads s.advance := .advance (by simp [ha])
    refine (((Takes.advance ha (by simp)).trans hE).trans (.expect (by simp) _ _)).imp_input ?_
    rintro _ hin ⟨_, _, rfl, ⟨_, ls, rfl, rfl, he, hb⟩, rfl⟩
    have hclose := Leads.expect (m := .parenR) (by simp) .parenthesis s₁
    refine ⟨(hadvance.trans he.leads).trans hclose, ?_, hin, fun rest _ => ?_, fun x hx => ?_⟩
    · exact (hadvance.taken_le.trans_lt he.taken).trans_le hclose.taken_le
    · have hparen : NoOperator (.mark .parenR :: rest) := .mark rfl rest
      have hinner := he.resumes.exprAt hb (hparen.follows _)
      simpa using OperandAt.parenthesis hinner
    · exact (he.nodes x hx).of_leads hadvance
  unary {_ s s₁ op e} ha _ hE := by
    have hadvance : s.Leads s.advance := .advance (by simpa [ha] using op.mark_ne_endOfFile)
    refine ((Takes.advance ha (by simpa using op.mark_ne_endOfFile)).trans
      hE).numberNode.imp_input ?_
    rintro _ hin ⟨_, ls, rfl, rfl, he, hb⟩
    have hl := hadvance.trans he.leads
    have htaken : s.taken < s₁.taken := hadvance.taken_le.trans_lt he.taken
    have hread (rest : List Lexeme) (hf : Follows s₁.input rest) :
        OperandAt (.mark op.mark :: ls ++ rest) (Expr.unary (s.nodeSince s₁) op e).bare rest :=
      .unary (he.resumes.exprAt hb hf)
    refine ⟨hl.trans (.numberNode _), htaken, hin, hread, fun x hx => ?_⟩
    rw [Expr.nodes, List.mem_append, List.mem_singleton] at hx
    rcases hx with hx | rfl
    · exact (he.nodes x hx).of_leads hadvance
    · exact ⟨s, s₁, _, .refl s, .nodeSince hl htaken hin, fun rest hrest =>
        .of_operandAt (hread rest (hrest.follows _)) hrest⟩
  hole _ := (Takes.report _ _ _).numberNode
  stop {begin s level lhs} hstop := by
    refine (Takes.stay s).imp ?_
    rintro _ rfl ks hks
    rw [List.append_nil]
    exact ⟨hks, fun op hop => hstop op (head?_input hop)⟩
  step {begin s s₁ s₂ level op lhs rhs e} ha hle _ _ hE hR := by
    have hround : s.Takes s₁ fun ls => ∃ rs, ls = .mark op.mark :: rs ∧
        s.input = .mark op.mark :: s.advance.input ∧
        ExprExtent op.rightLevel s.advance rhs s₁ rs ∧ Below op.rightLevel s₁.input := by
      refine ((Takes.advance ha (by simpa using op.mark_ne_endOfFile)).trans hE).imp_input ?_
      rintro _ hin ⟨_, rs, rfl, rfl, hr, hb⟩
      exact ⟨rs, rfl, by rw [hin, hr.input]; rfl, hr, hb⟩
    refine (hround.numberNode.trans hR).imp ?_
    rintro _ ⟨_, ts, rfl, ⟨rs, rfl, hin, hr, hb⟩, hts⟩ ks hks
    rw [← List.append_assoc]
    exact hts _ (hks.step ha hin hle hr hb).numberNode

/-! ## Blocks -/

/-- A block and its lexemes, read from `s` on. -/
structure BlockExtent (s : ParseState) (b : Block) (ls : List Lexeme) : Prop where
  reads : ReadsAsBlock b ls
  exprs : ∀ x ∈ b.exprs, s.Delimits x.span (ReadsAs x)
  statements : ∀ st ∈ b.statements, s.Delimits st.1.span (ReadsAsBlock st.2)

theorem BlockExtent.of_leads {s s' : ParseState} {b : Block} {ls : List Lexeme}
    (h : BlockExtent s' b ls) (hl : s.Leads s') : BlockExtent s b ls :=
  ⟨h.reads, fun x hx => (h.exprs x hx).of_leads hl,
    fun st hst => (h.statements st hst).of_leads hl⟩

/-- A statement in front of a block whose extent is known. -/
theorem BlockExtent.statement {s s' : ParseState} {statement : Block → Block} {n : Node}
    {ls rs : List Lexeme} {b : Block} (es : List Expr) (sts : List (Node × Block))
    (h : Heads statement ls) (hs : s.Stretch s' n.span ls)
    (hes : ∀ x ∈ es, s.Delimits x.span (ReadsAs x))
    (hsts : ∀ st ∈ sts, s.Delimits st.1.span (ReadsAsBlock st.2)) (hb : BlockExtent s b rs)
    (hexprs : (statement b).exprs = es ++ b.exprs)
    (hstatements : (statement b).statements = (n, statement .done) :: sts ++ b.statements) :
    BlockExtent s (statement b) (ls ++ rs) := by
  refine ⟨fun rest hrest => ?_, fun x hx => ?_, fun st hst => ?_⟩
  · rw [List.append_assoc]
    exact h b _ rest (hb.reads rest hrest)
  · rw [hexprs, List.mem_append] at hx
    rcases hx with hx | hx
    · exact hes x hx
    · exact hb.exprs x hx
  · rw [hstatements, List.mem_append, List.mem_cons] at hst
    rcases hst with (rfl | hst) | hst
    · -- by itself the statement is read where no other follows
      exact ⟨s, s', ls, .refl s, hs, fun rest hrest => h .done rest rest (.done hrest)⟩
    · exact hsts st hst
    · exact hb.statements st hst

/-- Statements are read where their spans say, and with them the expressions in them. -/
theorem extent_block_cases : ParseM.BlockCases
    (fun _ s e s' => s.Takes s' fun ls => ExprExtent .lowest s e s' ls ∧ Below .lowest s'.input)
    (fun s b s' => s.Takes s' (BlockExtent s b)) where
  done {s} hb := by
    refine (Takes.stay s).imp ?_
    rintro _ rfl
    refine ⟨fun rest hrest => .done hrest, fun x hx => ?_, fun st hst => ?_⟩
    · cases hx
    · cases hst
  semicolon {s s₁ b} ha _ hS := by
    refine ((Takes.advance ha (by simp)).trans hS).imp ?_
    rintro _ ⟨_, ls, rfl, rfl, h⟩
    have h' := h.of_leads (.advance (by simp [ha]))
    exact ⟨fun rest hrest => .semicolon (h.reads rest hrest), h'.exprs, h'.statements⟩
  declare {s s₁ s₂ m ty init rest} ha hty _ hX _ hS := by
    have hne := ahead_ne_endOfFile_of_type ha hty
    have hbegin := ((Takes.advance ha (ha ▸ hne)).trans
      (.afterSymbol .declaredName s.advance)).trans
        (.expect (m := .assign) (by simp) .declaration _)
    have hhead : s.Takes (s₁.expect .semicolon .declarationEnd) fun ls => ∃ es,
        ls = .mark m :: .name s.advance.symbolAhead.name :: .mark .assign ::
          (es ++ [.mark .semicolon]) ∧
        s.input = ls ++ (s₁.expect .semicolon .declarationEnd).input ∧
        ExprExtent .lowest s.beginDeclaration init s₁ es := by
      refine ((hbegin.trans hX).trans (.expect (by simp) .declarationEnd s₁)).imp_input ?_
      rintro _ hin ⟨_, _, rfl, ⟨_, es, rfl, ⟨_, _, rfl, ⟨_, _, rfl, rfl, rfl⟩, rfl⟩, he, -⟩, rfl⟩
      exact ⟨es, by simp, hin, he⟩
    refine (hhead.numberDecl.numberNode.trans hS).imp ?_
    rintro _ ⟨_, rs, rfl, ⟨es, rfl, hin, he⟩, hrest⟩
    have hlt := (hbegin.toLeads.taken_le.trans_lt he.taken).trans_le
      (Leads.expect (m := .semicolon) (by simp) .declarationEnd s₁).taken_le
    exact .statement init.nodes [] (.declare hty he.resumes.readsAs)
      (.nodeSince hhead.toLeads hlt hin)
      (fun x hx => (he.nodes x hx).of_leads hbegin.toLeads) (List.forall_mem_nil _)
      (hrest.of_leads hhead.numberDecl.numberNode.toLeads) rfl rfl
  assign {s s₁ s₂ x value rest} ha _ hX _ hS := by
    have hbegin := (Takes.advance ha (by simp)).trans
      (.expect (m := .assign) (by simp) .assignment s.advance)
    have hhead : s.Takes (s₁.expect .semicolon .assignmentEnd) fun ls => ∃ es,
        ls = .name x :: .mark .assign :: (es ++ [.mark .semicolon]) ∧
        s.input = ls ++ (s₁.expect .semicolon .assignmentEnd).input ∧
        ExprExtent .lowest s.beginAssignment value s₁ es := by
      refine ((hbegin.trans hX).trans (.expect (by simp) .assignmentEnd s₁)).imp_input ?_
      rintro _ hin ⟨_, _, rfl, ⟨_, es, rfl, ⟨_, _, rfl, rfl, rfl⟩, he, -⟩, rfl⟩
      exact ⟨es, by simp, hin, he⟩
    refine (hhead.numberNode.trans hS).imp ?_
    rintro _ ⟨_, rs, rfl, ⟨es, rfl, hin, he⟩, hrest⟩
    have hlt := (hbegin.toLeads.taken_le.trans_lt he.taken).trans_le
      (Leads.expect (m := .semicolon) (by simp) .assignmentEnd s₁).taken_le
    exact .statement value.nodes [] (.assign he.resumes.readsAs) (.nodeSince hhead.toLeads hlt hin)
      (fun x hx => (he.nodes x hx).of_leads hbegin.toLeads) (List.forall_mem_nil _)
      (hrest.of_leads hhead.numberNode.toLeads) rfl rfl
  loop {s s₁ s₂ s₃ cond body rest} ha _ hX _ hB _ hS := by
    have hwhile := Takes.advance ha (by simp)
    have hcond := (hwhile.trans hX).trans (.expect (m := .braceL) (by simp) .loop s₁)
    have hhead : s.Takes (s₂.expect .braceR .loop) fun ls => ∃ es bs,
        ls = .mark .while :: (es ++ .mark .braceL :: (bs ++ [.mark .braceR])) ∧
        s.input = ls ++ (s₂.expect .braceR .loop).input ∧
        ExprExtent .lowest s.advance cond s₁ es ∧
        BlockExtent (s₁.expect .braceL .loop) body bs := by
      refine ((hcond.trans hB).trans (.expect (by simp) .loop s₂)).imp_input ?_
      rintro _ hin ⟨_, _, rfl, ⟨_, bs, rfl, ⟨_, _, rfl, ⟨_, es, rfl, rfl, he, -⟩, rfl⟩, hb⟩, rfl⟩
      exact ⟨es, bs, by simp, hin, he, hb⟩
    refine (hhead.numberNode.trans hS).imp ?_
    rintro _ ⟨_, rs, rfl, ⟨es, bs, rfl, hin, he, hb⟩, hrest⟩
    have hlt : s.taken < (s₂.expect .braceR .loop).taken :=
      (hwhile.toLeads.taken_le.trans_lt he.taken).trans_le
        (((Leads.expect (by simp) .loop s₁).trans hB.toLeads).trans
          (.expect (by simp) .loop s₂)).taken_le
    have hbody := hb.of_leads hcond.toLeads
    refine .statement (cond.nodes ++ body.exprs) body.statements
      (.loop he.resumes.readsAs hb.reads) (.nodeSince hhead.toLeads hlt hin)
      (fun x hx => ?_) hbody.statements (hrest.of_leads hhead.numberNode.toLeads) rfl rfl
    rcases List.mem_append.1 hx with hx | hx
    · exact (he.nodes x hx).of_leads hwhile.toLeads
    · exact hbody.exprs x hx

end ParseState

end WhileLang
