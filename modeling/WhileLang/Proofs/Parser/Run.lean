import WhileLang.Proofs.Token.Lexemes
import WhileLang.Tree.Parser.Program

/-!
# `WhileLang/Proofs/Parser/Run.lean` — what the parser does with one state

The parser is a program of a state monad; what is proved about it is proved about the states it
passes through. This file says, for each of its pieces, **which state it ends in**: the pieces that
do not call themselves in closed form, the others in terms of the calls they make.

What matters of a state to the grammar is its `input`, the lexemes that are still to come. Taking a
token that is not the end of the file takes the first of them (`input_advance`), and nothing else
the parser does touches them. That holds of a state whose lexer closes with the end of the file
(`Ends`), as every lexer does that was made from a source.

## Induction over the parser

`ExprCases` and `BlockCases` list the ways in which the parser can come to its result. They are
proved complete once, together with the fact that the depth the parser counts down from is always
enough, so **nothing that is proved by them has to speak of depths again**.
-/

set_option autoImplicit false

namespace WhileLang

namespace ParseState

/-! ## States -/

/-- The lexemes from the token ahead on, up to the end of the file. -/
def input (s : ParseState) : List Lexeme :=
  ((s.ahead :: s.lexer.upcoming.map (·.token)).map (·.lexeme)).takeWhile
    (· ≠ .mark .endOfFile)

/-- What the lexer gives out last is the end of the file. -/
def Ends (s : ParseState) : Prop :=
  s.lexer.final.token.lexeme = .mark .endOfFile

/-- The state after a node was given its number. -/
def numberNode (s : ParseState) : ParseState := { s with nextNode := s.nextNode + 1 }

/-- The state after a declaration was given its number. -/
def numberDecl (s : ParseState) : ParseState := { s with nextDecl := s.nextDecl + 1 }

/-- The state after a mark was expected. -/
def expect (m : Mark) (context : ParseContext) (s : ParseState) : ParseState :=
  if s.ahead.lexeme = .mark m then s.advance else s.report (.mark m) context

/-- The node that the token ahead becomes. -/
def nodeAhead (s : ParseState) : Node := ⟨⟨s.nextNode⟩, s.ahead.span⟩

/-- The node that was begun at `begin` and is finished now. -/
def nodeSince (begin s : ParseState) : Node := ⟨⟨s.nextNode⟩, begin.spanSince s⟩

/-- The symbol that the token ahead gives. -/
def symbolAhead (s : ParseState) : Symbol :=
  match s.ahead.lexeme with
  | .name x => ⟨x, s.ahead.span⟩
  | _ => .missing s.ahead.span

/-- The state after a name was expected. -/
def afterSymbol (context : ParseContext) (s : ParseState) : ParseState :=
  match s.ahead.lexeme with
  | .name _ => s.advance
  | _ => s.report .name context

/-- The state in which the value of a declaration is read, from that before its type. -/
def beginDeclaration (s : ParseState) : ParseState :=
  (s.advance.afterSymbol .declaredName).expect .assign .declaration

/-- The state in which the value of an assignment is read, from that before its name. -/
def beginAssignment (s : ParseState) : ParseState :=
  s.advance.expect .assign .assignment

@[simp] theorem ends_report {s : ParseState} {e : Expected} {c : ParseContext} :
    (s.report e c).Ends ↔ s.Ends := Iff.rfl

@[simp] theorem ends_numberNode {s : ParseState} : s.numberNode.Ends ↔ s.Ends := Iff.rfl

@[simp] theorem ends_numberDecl {s : ParseState} : s.numberDecl.Ends ↔ s.Ends := Iff.rfl

@[simp] theorem input_report (s : ParseState) (e : Expected) (c : ParseContext) :
    (s.report e c).input = s.input := rfl

@[simp] theorem input_numberNode (s : ParseState) : s.numberNode.input = s.input := rfl

@[simp] theorem input_numberDecl (s : ParseState) : s.numberDecl.input = s.input := rfl

theorem Ends.advance {s : ParseState} (h : s.Ends) : s.advance.Ends := by
  unfold Ends ParseState.advance Lexer.next at *
  cases hu : s.lexer.upcoming <;> simpa [hu] using h

/-- Taking a token takes the first lexeme of the input. -/
theorem input_advance {s : ParseState} (h : s.Ends) (ha : s.ahead.lexeme ≠ .mark .endOfFile) :
    s.input = s.ahead.lexeme :: s.advance.input := by
  unfold Ends at h
  unfold input ParseState.advance Lexer.next
  cases hu : s.lexer.upcoming <;> simp [ha, h]

/-! ## Ways from one state to another -/

/-- What the parser does to its state: tokens are taken, but not the end of the file, faults are
reported, and numbers are given. -/
inductive Leads (s : ParseState) : ParseState → Prop where
  | stay : Leads s s
  | thenAdvance {s' : ParseState} : Leads s s' → s'.ahead.lexeme ≠ .mark .endOfFile →
    Leads s s'.advance
  | thenReport {s' : ParseState} (e : Expected) (c : ParseContext) : Leads s s' →
    Leads s (s'.report e c)
  | thenNumberNode {s' : ParseState} : Leads s s' → Leads s s'.numberNode
  | thenNumberDecl {s' : ParseState} : Leads s s' → Leads s s'.numberDecl

namespace Leads

theorem refl (s : ParseState) : s.Leads s := .stay

theorem trans {s s₁ s₂ : ParseState} (h : s.Leads s₁) (h₁ : s₁.Leads s₂) : s.Leads s₂ := by
  induction h₁ with
  | stay => exact h
  | thenAdvance _ ha ih => exact ih.thenAdvance ha
  | thenReport e c _ ih => exact ih.thenReport e c
  | thenNumberNode _ ih => exact ih.thenNumberNode
  | thenNumberDecl _ ih => exact ih.thenNumberDecl

theorem ends {s s' : ParseState} (h : s.Leads s') (he : s.Ends) : s'.Ends := by
  induction h with
  | stay => exact he
  | thenAdvance _ _ ih => exact ih.advance
  | thenReport _ _ _ ih => exact ih
  | thenNumberNode _ ih => exact ih
  | thenNumberDecl _ ih => exact ih

/-- The input of the second state is that of the first, or a part of it that begins later. -/
theorem input {s s' : ParseState} (h : s.Leads s') (he : s.Ends) : s'.input <:+ s.input := by
  induction h with
  | stay => exact List.suffix_rfl
  | thenAdvance h ha ih =>
    refine List.IsSuffix.trans ?_ ih
    rw [input_advance (h.ends he) ha]
    exact List.suffix_cons ..
  | thenReport _ _ _ ih => exact ih
  | thenNumberNode _ ih => exact ih
  | thenNumberDecl _ ih => exact ih

theorem report (s : ParseState) (e : Expected) (c : ParseContext) : s.Leads (s.report e c) :=
  (refl s).thenReport e c

theorem numberNode (s : ParseState) : s.Leads s.numberNode :=
  (refl s).thenNumberNode

theorem numberDecl (s : ParseState) : s.Leads s.numberDecl :=
  (refl s).thenNumberDecl

theorem advance {s : ParseState} (ha : s.ahead.lexeme ≠ .mark .endOfFile) :
    s.Leads s.advance :=
  (refl s).thenAdvance ha

theorem expect {m : Mark} (hm : m ≠ .endOfFile) (c : ParseContext) (s : ParseState) :
    s.Leads (s.expect m c) := by
  unfold ParseState.expect
  split
  · rename_i ha
    exact advance (by rw [ha]; simpa using hm)
  · exact report s _ c

theorem afterSymbol (c : ParseContext) (s : ParseState) : s.Leads (s.afterSymbol c) := by
  unfold ParseState.afterSymbol
  split
  · rename_i ha
    exact advance (by rw [ha]; simp)
  · exact report s _ c

theorem beginDeclaration (s : ParseState) : s.advance.Leads s.beginDeclaration :=
  (afterSymbol _ _).trans (expect (by simp) _ _)

theorem beginAssignment (s : ParseState) : s.advance.Leads s.beginAssignment :=
  expect (by simp) _ _

/-- From the value of a declaration to the state behind it. -/
theorem endDeclaration (s : ParseState) :
    s.Leads (s.expect .semicolon .declarationEnd).numberDecl.numberNode :=
  (expect (by simp) _ s).thenNumberDecl.thenNumberNode

theorem endAssignment (s : ParseState) :
    s.Leads (s.expect .semicolon .assignmentEnd).numberNode :=
  (expect (by simp) _ s).thenNumberNode

theorem endLoop (s : ParseState) : s.Leads (s.expect .braceR .loop).numberNode :=
  (expect (by simp) _ s).thenNumberNode

theorem length_le {s s' : ParseState} (h : s.Leads s') (he : s.Ends) :
    s'.input.length ≤ s.input.length :=
  (h.input he).length_le

end Leads

/-- After a token was taken there is one lexeme less. -/
theorem ahead_ne_endOfFile_of_type {s : ParseState} {m : Mark} {ty : Ty}
    (ha : s.ahead.lexeme = .mark m) (hty : Ty.ofMark? m = some ty) :
    s.ahead.lexeme ≠ .mark .endOfFile := by
  rw [ha]
  simpa using Ty.ne_endOfFile_of_ofMark? hty

theorem length_input_advance {s : ParseState} (h : s.Ends)
    (ha : s.ahead.lexeme ≠ .mark .endOfFile) : s.advance.input.length + 1 = s.input.length := by
  rw [input_advance h ha, List.length_cons]

theorem Leads.length_lt {s s' : ParseState} (h : s.advance.Leads s') (he : s.Ends)
    (ha : s.ahead.lexeme ≠ .mark .endOfFile) : s'.input.length < s.input.length := by
  have hle := h.length_le he.advance
  have hlen := length_input_advance he ha
  omega

theorem mem_input_ahead {s : ParseState} (ha : s.ahead.lexeme ≠ .mark .endOfFile) :
    s.ahead.lexeme ∈ s.input := by
  simp [input, ha]

/-! ## The state before the first token -/

/-- The state in which the parser begins to read a source. -/
def ofSource (file : FileId) (source : Source) : ParseState :=
  .start (.ofSource file source) .empty

theorem ends_ofSource (file : FileId) (source : Source) : (ofSource file source).Ends := by
  have h : (Lexer.ofSource file source).final.token.lexeme = .mark .endOfFile :=
    Lexer.lexeme_final_ofPieces ..
  unfold Ends ofSource start Lexer.next
  cases hu : (Lexer.ofSource file source).upcoming <;> simpa [hu] using h

/-- What the parser reads is what the source says. -/
theorem input_ofSource (file : FileId) (source : Source) :
    (ofSource file source).input = lexemes source.chars := by
  have hl := Lexer.lexemes_upcoming_ofSource file source
  have hf : (Lexer.ofSource file source).final.token.lexeme = .mark .endOfFile :=
    Lexer.lexeme_final_ofPieces ..
  have hall : (lexemes source.chars).takeWhile (· ≠ .mark .endOfFile) = lexemes source.chars := by
    rw [List.takeWhile_eq_self_iff]
    intro l hl
    simpa using fun h : l = _ => endOfFile_notMem_lexemes _ (h ▸ hl)
  unfold input ofSource start Lexer.next
  cases hu : (Lexer.ofSource file source).upcoming with
  | nil =>
    rw [hu] at hl
    simp [hf, ← hl]
  | cons r rs =>
    have hr : (r.token :: rs.map (·.token)).map (·.lexeme) = lexemes source.chars := by
      rw [← hl, hu]
      simp
    exact hr ▸ hall

theorem length_input_lt_inSight (s : ParseState) : s.input.length < s.inSight := by
  have h : s.input.length ≤ s.lexer.upcoming.length + 1 := by
    simpa [input] using (List.takeWhile_prefix (fun l : Lexeme => decide (l ≠ .mark .endOfFile))
      (l := (s.ahead :: s.lexer.upcoming.map (·.token)).map (·.lexeme))).length_le
  unfold inSight
  omega

end ParseState

namespace ParseM

open ParseState

/-! ## The pieces that do not call themselves -/

theorem run_expect (m : Mark) (context : ParseContext) (s : ParseState) :
    (expect m context).run s = ((), s.expect m context) := by
  unfold ParseState.expect
  simp only [expect, ahead, advance, report]
  by_cases h : s.ahead.lexeme = .mark m <;> simp [h] <;> rfl

theorem run_symbol (context : ParseContext) (s : ParseState) :
    (symbol context).run s = (s.symbolAhead, s.afterSymbol context) := by
  unfold symbolAhead afterSymbol
  have h : (symbol context).run s = (match s.ahead.lexeme with
    | .name x => do advance; return ⟨x, s.ahead.span⟩
    | _ => do report .name context; return .missing s.ahead.span : ParseM Symbol).run s := rfl
  rw [h]
  cases s.ahead.lexeme <;> rfl

theorem run_get (s : ParseState) : (get : ParseM ParseState).run s = (s, s) := rfl

theorem run_advance (s : ParseState) : advance.run s = ((), s.advance) := rfl

theorem run_nodeSince (begin s : ParseState) :
    (nodeSince begin).run s = (begin.nodeSince s, s.numberNode) := rfl

theorem run_declId (s : ParseState) : declId.run s = (⟨s.nextDecl⟩, s.numberDecl) := rfl

theorem run_pure {α : Type} (a : α) (s : ParseState) : (pure a : ParseM α).run s = (a, s) := rfl

theorem run_bind {α β : Type} (x : ParseM α) (f : α → ParseM β) (s : ParseState) :
    (x >>= f).run s = (f (x.run s).1).run (x.run s).2 := rfl

/-! ## Expressions -/

theorem run_expression_succ (depth : Nat) (context : ParseContext) (level : Level)
    (s : ParseState) :
    (expression (depth + 1) context level).run s =
      (operators depth s level ((operand depth context).run s).1).run
        ((operand depth context).run s).2 := rfl

/-- An operand, by the lexeme ahead. -/
theorem run_operand_succ (depth : Nat) (context : ParseContext) (s : ParseState) :
    (operand (depth + 1) context).run s = (match s.ahead.lexeme with
      | .name x => (.var s.nodeAhead ⟨x, s.ahead.span⟩, s.advance.numberNode)
      | .literal v => (.int s.nodeAhead v, s.advance.numberNode)
      | .mark .true => (.bool s.nodeAhead true, s.advance.numberNode)
      | .mark .false => (.bool s.nodeAhead false, s.advance.numberNode)
      | .mark .parenL =>
        let r := (expression depth .parenthesis .lowest).run s.advance
        (r.1, r.2.expect .parenR .parenthesis)
      | .mark m =>
        match UnaryOp.ofMark? m with
        | some op =>
          let r := (expression depth .unaryOperand op.level).run s.advance
          (.unary (s.nodeSince r.2) op r.1, r.2.numberNode)
        | none => (.hole s.nodeAhead, (s.report .operand context).numberNode)) := by
  have h : (operand (depth + 1) context).run s = (match s.ahead.lexeme with
      | .name x => leaf fun n => .var n ⟨x, n.span⟩
      | .literal v => leaf fun n => .int n v
      | .mark .true => leaf fun n => .bool n true
      | .mark .false => leaf fun n => .bool n false
      | .mark .parenL => do
        advance
        let e ← expression depth .parenthesis .lowest
        expect .parenR .parenthesis
        return e
      | .mark m =>
        match UnaryOp.ofMark? m with
        | some op => do
          advance
          let e ← expression depth .unaryOperand op.level
          return .unary (← nodeSince s) op e
        | none => hole context : ParseM Expr).run s := rfl
  rw [h]
  cases s.ahead.lexeme with
  | name x => rfl
  | literal v => rfl
  | mark m =>
    cases m
    case parenL =>
      show (_, ((expect .parenR .parenthesis).run _).2) = _
      rw [run_expect]
      rfl
    all_goals rfl

/-- What follows an operand: another operator at the level, or the end of the expression. -/
theorem run_operators_succ (depth : Nat) (begin : ParseState) (level : Level) (lhs : Expr)
    (s : ParseState) :
    (operators (depth + 1) begin level lhs).run s = (match s.ahead.lexeme with
      | .mark m =>
        match BinaryOp.ofMark? m with
        | some op =>
          if op.level.rank < level.rank then (lhs, s)
          else
            let r := (expression depth (.rightOperand op) op.rightLevel).run s.advance
            (operators depth begin level (.binary (begin.nodeSince r.2) op lhs r.1)).run
              r.2.numberNode
        | none => (lhs, s)
      | _ => (lhs, s)) := by
  have h : (operators (depth + 1) begin level lhs).run s = (match s.ahead.lexeme with
      | .mark m =>
        match BinaryOp.ofMark? m with
        | some op =>
          if op.level.rank < level.rank then return lhs
          else do
            advance
            let rhs ← expression depth (.rightOperand op) op.rightLevel
            let n ← nodeSince begin
            operators depth begin level (.binary n op lhs rhs)
        | none => return lhs
      | _ => return lhs : ParseM Expr).run s := rfl
  rw [h]
  cases s.ahead.lexeme with
  | name x => rfl
  | literal v => rfl
  | mark m =>
    cases hm : BinaryOp.ofMark? m with
    | none => simp only [hm]; rfl
    | some op => simp only [hm]; split <;> rfl

/-- Whether an operand begins with this lexeme. -/
def beginsOperand : Lexeme → Bool
  | .name _ | .literal _ | .mark .true | .mark .false | .mark .parenL => true
  | .mark m => (UnaryOp.ofMark? m).isSome

/-- The ways in which the parser comes to an expression. `E` is about expressions in which the
operators stand at a level or above, `O` about operands, and `R` about what follows an operand,
which is the left one of all operators to come. -/
structure ExprCases (E : ParseContext → Level → ParseState → Expr → ParseState → Prop)
    (O : ParseContext → ParseState → Expr → ParseState → Prop)
    (R : ParseState → Level → Expr → ParseState → Expr → ParseState → Prop) : Prop where
  ofOperand {context : ParseContext} {level : Level} {s s₁ s₂ : ParseState} {lhs e : Expr} :
    s.Leads s₁ → s₁.Leads s₂ → O context s lhs s₁ → R s level lhs s₁ e s₂ →
    E context level s e s₂
  var {context : ParseContext} {s : ParseState} {x : String} : s.ahead.lexeme = .name x →
    O context s (.var s.nodeAhead ⟨x, s.ahead.span⟩) s.advance.numberNode
  int {context : ParseContext} {s : ParseState} {v : Int64} : s.ahead.lexeme = .literal v →
    O context s (.int s.nodeAhead v) s.advance.numberNode
  bool {context : ParseContext} {s : ParseState} {b : Bool} :
    s.ahead.lexeme = .mark (if b then .true else .false) →
    O context s (.bool s.nodeAhead b) s.advance.numberNode
  parenthesis {context : ParseContext} {s s₁ : ParseState} {e : Expr} :
    s.ahead.lexeme = .mark .parenL → s.advance.Leads s₁ →
    E .parenthesis .lowest s.advance e s₁ → O context s e (s₁.expect .parenR .parenthesis)
  unary {context : ParseContext} {s s₁ : ParseState} {op : UnaryOp} {e : Expr} :
    s.ahead.lexeme = .mark op.mark → s.advance.Leads s₁ →
    E .unaryOperand op.level s.advance e s₁ →
    O context s (.unary (s.nodeSince s₁) op e) s₁.numberNode
  hole {context : ParseContext} {s : ParseState} : beginsOperand s.ahead.lexeme = false →
    O context s (.hole s.nodeAhead) (s.report .operand context).numberNode
  stop {begin s : ParseState} {level : Level} {lhs : Expr} :
    (∀ op : BinaryOp, s.ahead.lexeme = .mark op.mark → op.level.rank < level.rank) →
    R begin level lhs s lhs s
  step {begin s s₁ s₂ : ParseState} {level : Level} {op : BinaryOp} {lhs rhs e : Expr} :
    s.ahead.lexeme = .mark op.mark → level.rank ≤ op.level.rank →
    s.advance.Leads s₁ → s₁.Leads s₂ →
    E (.rightOperand op) op.rightLevel s.advance rhs s₁ →
    R begin level (.binary (begin.nodeSince s₁) op lhs rhs) s₁.numberNode e s₂ →
    R begin level lhs s e s₂

section

variable {E : ParseContext → Level → ParseState → Expr → ParseState → Prop}
variable {O : ParseContext → ParseState → Expr → ParseState → Prop}
variable {R : ParseState → Level → Expr → ParseState → Expr → ParseState → Prop}

/-- At this depth an expression is read in one of the ways. -/
def Expressions (E : ParseContext → Level → ParseState → Expr → ParseState → Prop)
    (depth : Nat) : Prop :=
  ∀ context level s, s.Ends → 2 * s.input.length + 2 ≤ depth →
    let r := (expression depth context level).run s
    s.Leads r.2 ∧ E context level s r.1 r.2

def Operands (O : ParseContext → ParseState → Expr → ParseState → Prop) (depth : Nat) : Prop :=
  ∀ context s, s.Ends → 2 * s.input.length + 1 ≤ depth →
    let r := (operand depth context).run s
    s.Leads r.2 ∧ O context s r.1 r.2

def Operators (R : ParseState → Level → Expr → ParseState → Expr → ParseState → Prop)
    (depth : Nat) : Prop :=
  ∀ begin level lhs s, s.Ends → 2 * s.input.length + 1 ≤ depth →
    let r := (operators depth begin level lhs).run s
    s.Leads r.2 ∧ R begin level lhs s r.1 r.2

namespace ExprCases

variable {depth : Nat}

theorem expressions_succ (h : ExprCases E O R) (hO : Operands O depth) (hR : Operators R depth) :
    Expressions E (depth + 1) := by
  intro context level s he hd
  rw [run_expression_succ]
  obtain ⟨hl, ho⟩ := hO context s he (by omega)
  have hlen := hl.length_le he
  obtain ⟨hl', hr⟩ := hR s level ((operand depth context).run s).1 _ (hl.ends he) (by omega)
  exact ⟨hl.trans hl', h.ofOperand hl hl' ho hr⟩

theorem operands_succ (h : ExprCases E O R) (hE : Expressions E depth) :
    Operands O (depth + 1) := by
  intro context s he hd
  rw [run_operand_succ]
  split
  · rename_i x ha
    exact ⟨(Leads.advance (by simp [ha])).trans (.numberNode _), h.var ha⟩
  · rename_i v ha
    exact ⟨(Leads.advance (by simp [ha])).trans (.numberNode _), h.int ha⟩
  · rename_i ha
    exact ⟨(Leads.advance (by simp [ha])).trans (.numberNode _), h.bool (b := true) ha⟩
  · rename_i ha
    exact ⟨(Leads.advance (by simp [ha])).trans (.numberNode _), h.bool (b := false) ha⟩
  · rename_i ha
    have hne : s.ahead.lexeme ≠ .mark .endOfFile := by simp [ha]
    have hlen := length_input_advance he hne
    obtain ⟨hl, hex⟩ := hE .parenthesis .lowest s.advance he.advance (by omega)
    exact ⟨(Leads.advance hne).trans (hl.trans (.expect (by simp) _ _)),
      h.parenthesis ha hl hex⟩
  · rename_i m _ _ _ ha
    split
    · rename_i op hop
      rw [UnaryOp.ofMark?_eq_some_iff] at hop
      subst hop
      have hne : s.ahead.lexeme ≠ .mark .endOfFile := by
        simpa [ha] using op.mark_ne_endOfFile
      have hlen := length_input_advance he hne
      obtain ⟨hl, hex⟩ := hE .unaryOperand op.level s.advance he.advance (by omega)
      exact ⟨(Leads.advance hne).trans (hl.trans (.numberNode _)), h.unary ha hl hex⟩
    · -- the marks that begin an operand were taken by the cases before
      rename_i hnone
      refine ⟨(Leads.report ..).trans (.numberNode _), h.hole ?_⟩
      rw [ha]
      cases m <;> first | rfl | contradiction

theorem operators_succ (h : ExprCases E O R) (hE : Expressions E depth) (hR : Operators R depth) :
    Operators R (depth + 1) := by
  intro begin level lhs s he hd
  rw [run_operators_succ]
  split
  · rename_i m ha
    split
    · rename_i op hop
      rw [BinaryOp.ofMark?_eq_some_iff] at hop
      subst hop
      split
      · rename_i hlt
        refine ⟨.refl s, h.stop fun op' ha' => ?_⟩
        rw [ha, Lexeme.mark.injEq, BinaryOp.mark_inj] at ha'
        exact ha' ▸ hlt
      · rename_i hge
        have hne : s.ahead.lexeme ≠ .mark .endOfFile := by
          simpa [ha] using op.mark_ne_endOfFile
        -- the operator was taken, which is enough for its operand and for what follows that
        have hlen := length_input_advance he hne
        obtain ⟨hl, hex⟩ := hE (.rightOperand op) op.rightLevel s.advance he.advance (by omega)
        have hlen' := hl.length_le he.advance
        obtain ⟨hl', hrest⟩ := hR begin level _ _ (ends_numberNode.2 (hl.ends he.advance))
          (by rw [input_numberNode]; omega)
        have hl' := (Leads.numberNode _).trans hl'
        exact ⟨(Leads.advance hne).trans (hl.trans hl'), h.step ha (by omega) hl hl' hex hrest⟩
    · rename_i hnone
      refine ⟨.refl s, h.stop fun op ha' => ?_⟩
      rw [ha, Lexeme.mark.injEq] at ha'
      simp [ha'] at hnone
  · rename_i hno
    exact ⟨.refl s, h.stop fun op ha' => absurd ha' (hno _)⟩

/-- The three functions come to their results in no other ways, whenever the depth is at least
twice the number of lexemes to come. Every call one level down is either made after a token was
taken, which pays for two levels, or is one of the two that an expression makes at once. -/
theorem complete (h : ExprCases E O R) (depth : Nat) :
    Expressions E depth ∧ Operands O depth ∧ Operators R depth := by
  induction depth with
  | zero =>
    refine ⟨?_, ?_, ?_⟩
    · intro context level s he hd
      omega
    · intro context s he hd
      omega
    · intro begin level lhs s he hd
      omega
  | succ depth ih =>
    obtain ⟨hE, hO, hR⟩ := ih
    exact ⟨h.expressions_succ hO hR, h.operands_succ hE, h.operators_succ hE hR⟩

end ExprCases

end

/-! ## Statements -/

theorem run_declaration (bound : Nat) (ty : Ty) (s : ParseState) :
    (declaration bound ty).run s =
      let r := (expr bound .initializer).run s.beginDeclaration
      let s' := r.2.expect .semicolon .declarationEnd
      (⟨s.nodeSince s', ⟨s'.nextDecl⟩, ty, s.advance.symbolAhead, r.1⟩,
        s'.numberDecl.numberNode) := by
  simp only [declaration, run_bind, run_get, run_advance, run_symbol, run_expect, run_nodeSince,
    run_declId, run_pure]
  rfl

theorem run_assignment (bound : Nat) (x : String) (s : ParseState) :
    (assignment bound x).run s =
      let r := (expr bound .assignedValue).run s.beginAssignment
      let s' := r.2.expect .semicolon .assignmentEnd
      (⟨s.nodeSince s', ⟨x, s.ahead.span⟩, r.1⟩, s'.numberNode) := by
  simp only [assignment, run_bind, run_get, run_advance, run_expect, run_nodeSince, run_pure]
  rfl

/-- A block, by the lexeme ahead. -/
theorem run_statements_succ (bound : Nat) (s : ParseState) :
    (statements (bound + 1)).run s = (match s.ahead.lexeme with
      | .mark .semicolon => (statements bound).run s.advance
      | .mark .int =>
        let d := (declaration (bound + 1) .int).run s
        let r := (statements bound).run d.2
        (.declare d.1 r.1, r.2)
      | .mark .bool =>
        let d := (declaration (bound + 1) .bool).run s
        let r := (statements bound).run d.2
        (.declare d.1 r.1, r.2)
      | .name x =>
        let a := (assignment (bound + 1) x).run s
        let r := (statements bound).run a.2
        (.assign a.1 r.1, r.2)
      | .mark .while =>
        let c := (expr (bound + 1) .condition).run s.advance
        let begin := c.2.expect .braceL .loop
        let b := (statements bound).run begin
        let s' := b.2.expect .braceR .loop
        let r := (statements bound).run s'.numberNode
        (.loop ⟨s.nodeSince s', c.1, begin.spanSince b.2⟩ b.1 r.1, r.2)
      | _ => (.done, s)) := by
  cases ha : s.ahead.lexeme with
  | name x => simp only [statements, run_bind, run_get, ha, run_pure]
  | literal v => simp only [statements, run_bind, run_get, ha, run_pure]
  | mark m =>
    cases m
    case «while» =>
      simp only [statements, run_bind, run_get, ha, run_pure, run_expect, run_advance,
        run_nodeSince]
    all_goals simp only [statements, run_bind, run_get, ha, run_pure, run_advance]

theorem run_program (s : ParseState) :
    program.run s =
      let b := (statements s.inSight).run s
      let r := (expr s.inSight .result).run (b.2.expect .return .program)
      let s' := r.2.expect .semicolon .resultEnd
      (⟨s.spanSince s', s.spanSince b.2, b.1, r.1⟩, s'.expect .endOfFile .programEnd) := by
  simp only [program, run_bind, run_get, run_expect, run_pure]

/-- Whether a statement, or a semicolon between statements, begins with this lexeme. -/
def beginsStatement : Lexeme → Bool
  | .name _ | .mark .semicolon | .mark .int | .mark .bool | .mark .while => true
  | _ => false

/-- The ways in which the parser comes to a block. `X` is about the expressions in it, and `S` about
the block itself. -/
structure BlockCases (X : ParseContext → ParseState → Expr → ParseState → Prop)
    (S : ParseState → Block → ParseState → Prop) : Prop where
  done {s : ParseState} : beginsStatement s.ahead.lexeme = false → S s .done s
  semicolon {s s₁ : ParseState} {b : Block} :
    s.ahead.lexeme = .mark .semicolon → s.advance.Leads s₁ → S s.advance b s₁ → S s b s₁
  declare {s s₁ s₂ : ParseState} {m : Mark} {ty : Ty} {init : Expr} {rest : Block} :
    s.ahead.lexeme = .mark m → Ty.ofMark? m = some ty →
    s.beginDeclaration.Leads s₁ → X .initializer s.beginDeclaration init s₁ →
    (s₁.expect .semicolon .declarationEnd).numberDecl.numberNode.Leads s₂ →
    S (s₁.expect .semicolon .declarationEnd).numberDecl.numberNode rest s₂ →
    S s (.declare ⟨s.nodeSince (s₁.expect .semicolon .declarationEnd),
      ⟨(s₁.expect .semicolon .declarationEnd).nextDecl⟩, ty, s.advance.symbolAhead, init⟩ rest) s₂
  assign {s s₁ s₂ : ParseState} {x : String} {value : Expr} {rest : Block} :
    s.ahead.lexeme = .name x →
    s.beginAssignment.Leads s₁ → X .assignedValue s.beginAssignment value s₁ →
    (s₁.expect .semicolon .assignmentEnd).numberNode.Leads s₂ →
    S (s₁.expect .semicolon .assignmentEnd).numberNode rest s₂ →
    S s (.assign ⟨s.nodeSince (s₁.expect .semicolon .assignmentEnd), ⟨x, s.ahead.span⟩, value⟩
      rest) s₂
  loop {s s₁ s₂ s₃ : ParseState} {cond : Expr} {body rest : Block} :
    s.ahead.lexeme = .mark .while →
    s.advance.Leads s₁ → X .condition s.advance cond s₁ →
    (s₁.expect .braceL .loop).Leads s₂ → S (s₁.expect .braceL .loop) body s₂ →
    (s₂.expect .braceR .loop).numberNode.Leads s₃ →
    S (s₂.expect .braceR .loop).numberNode rest s₃ →
    S s (.loop ⟨s.nodeSince (s₂.expect .braceR .loop), cond,
      (s₁.expect .braceL .loop).spanSince s₂⟩ body rest) s₃

section

variable {E : ParseContext → Level → ParseState → Expr → ParseState → Prop}
variable {O : ParseContext → ParseState → Expr → ParseState → Prop}
variable {R : ParseState → Level → Expr → ParseState → Expr → ParseState → Prop}
variable {S : ParseState → Block → ParseState → Prop}

theorem ExprCases.expr (h : ExprCases E O R) (bound : Nat) (context : ParseContext)
    {s : ParseState} (he : s.Ends) (hb : s.input.length < bound) :
    s.Leads ((expr bound context).run s).2 ∧
      E context .lowest s ((expr bound context).run s).1 ((expr bound context).run s).2 :=
  (h.complete (2 * bound)).1 context .lowest s he (by omega)

/-- Within this bound a block is read in one of the ways. -/
def Statements (S : ParseState → Block → ParseState → Prop) (bound : Nat) : Prop :=
  ∀ s : ParseState, s.Ends → s.input.length < bound →
    let r := (statements bound).run s
    s.Leads r.2 ∧ S s r.1 r.2

namespace BlockCases

variable {bound : Nat} {s : ParseState}

theorem declare_run (h : ExprCases E O R) (hb : BlockCases (E · .lowest) S)
    (hS : Statements S bound) (he : s.Ends) (hd : s.input.length < bound + 1) {m : Mark} {ty : Ty}
    (ha : s.ahead.lexeme = .mark m) (hty : Ty.ofMark? m = some ty) :
    let d := (declaration (bound + 1) ty).run s
    let r := (statements bound).run d.2
    s.Leads r.2 ∧ S s (.declare d.1 r.1) r.2 := by
  rw [run_declaration]
  have hne := ahead_ne_endOfFile_of_type ha hty
  have hlen := length_input_advance he hne
  have hbegin := Leads.beginDeclaration s
  obtain ⟨hl, hX⟩ := h.expr (bound + 1) .initializer (hbegin.ends he.advance)
    (by have := hbegin.length_le he.advance; omega)
  have hend := Leads.endDeclaration ((expr (bound + 1) .initializer).run s.beginDeclaration).2
  have hrun := (hbegin.trans hl).trans hend
  obtain ⟨hl', hrest⟩ := hS _ (hrun.ends he.advance)
    (by have := hrun.length_le he.advance; omega)
  exact ⟨(Leads.advance hne).trans (hrun.trans hl'), hb.declare ha hty hl hX hl' hrest⟩

theorem assign_run (h : ExprCases E O R) (hb : BlockCases (E · .lowest) S)
    (hS : Statements S bound) (he : s.Ends) (hd : s.input.length < bound + 1) {x : String}
    (ha : s.ahead.lexeme = .name x) :
    let a := (assignment (bound + 1) x).run s
    let r := (statements bound).run a.2
    s.Leads r.2 ∧ S s (.assign a.1 r.1) r.2 := by
  rw [run_assignment]
  have hne : s.ahead.lexeme ≠ .mark .endOfFile := by simp [ha]
  have hlen := length_input_advance he hne
  have hbegin := Leads.beginAssignment s
  obtain ⟨hl, hX⟩ := h.expr (bound + 1) .assignedValue (hbegin.ends he.advance)
    (by have := hbegin.length_le he.advance; omega)
  have hend := Leads.endAssignment ((expr (bound + 1) .assignedValue).run s.beginAssignment).2
  have hrun := (hbegin.trans hl).trans hend
  obtain ⟨hl', hrest⟩ := hS _ (hrun.ends he.advance)
    (by have := hrun.length_le he.advance; omega)
  exact ⟨(Leads.advance hne).trans (hrun.trans hl'), hb.assign ha hl hX hl' hrest⟩

theorem loop_run (h : ExprCases E O R) (hb : BlockCases (E · .lowest) S)
    (hS : Statements S bound) (he : s.Ends) (hd : s.input.length < bound + 1)
    (ha : s.ahead.lexeme = .mark .while) :
    let c := (expr (bound + 1) .condition).run s.advance
    let begin := c.2.expect .braceL .loop
    let b := (statements bound).run begin
    let s' := b.2.expect .braceR .loop
    let r := (statements bound).run s'.numberNode
    s.Leads r.2 ∧ S s (.loop ⟨s.nodeSince s', c.1, begin.spanSince b.2⟩ b.1 r.1) r.2 := by
  have hne : s.ahead.lexeme ≠ .mark .endOfFile := by simp [ha]
  have hlen := length_input_advance he hne
  obtain ⟨hl, hX⟩ := h.expr (bound + 1) .condition he.advance (by omega)
  have hcond := hl.trans (.expect (m := .braceL) (by simp) .loop _)
  obtain ⟨hl₂, hbody⟩ := hS _ (hcond.ends he.advance)
    (by have := hcond.length_le he.advance; omega)
  have hloop := (hcond.trans hl₂).trans (.endLoop _)
  obtain ⟨hl₃, hrest⟩ := hS _ (hloop.ends he.advance)
    (by have := hloop.length_le he.advance; omega)
  exact ⟨(Leads.advance hne).trans (hloop.trans hl₃), hb.loop ha hl hX hl₂ hbody hl₃ hrest⟩

/-- Blocks come about in no other ways, when the bound exceeds the number of lexemes to come. -/
theorem complete (h : ExprCases E O R) (hb : BlockCases (E · .lowest) S) (bound : Nat) :
    Statements S bound := by
  induction bound with
  | zero =>
    intro s he hd
    omega
  | succ bound ih =>
    intro s he hd
    rw [run_statements_succ]
    split
    · rename_i ha
      have hne : s.ahead.lexeme ≠ .mark .endOfFile := by simp [ha]
      have hlen := length_input_advance he hne
      obtain ⟨hl, hS⟩ := ih s.advance he.advance (by omega)
      exact ⟨(Leads.advance hne).trans hl, hb.semicolon ha hl hS⟩
    · rename_i ha
      exact declare_run h hb ih he hd ha rfl
    · rename_i ha
      exact declare_run h hb ih he hd ha rfl
    · rename_i x ha
      exact assign_run h hb ih he hd ha
    · rename_i ha
      exact loop_run h hb ih he hd ha
    · -- no statement begins with any of the other lexemes
      rename_i hsemicolon hint hbool hname hwhile
      refine ⟨.refl s, hb.done ?_⟩
      cases ha : s.ahead.lexeme with
      | name x => exact absurd ha (hname x)
      | literal v => rfl
      | mark m => cases m <;> first | rfl | contradiction

end BlockCases

/-- A program is a block and a result, read one after the other. -/
theorem BlockCases.program (h : ExprCases E O R) (hb : BlockCases (E · .lowest) S)
    {s : ParseState} (he : s.Ends) :
    ∃ (s₁ s₂ : ParseState) (body : Block) (result : Expr),
      s.Leads s₁ ∧ S s body s₁ ∧
      (s₁.expect .return .program).Leads s₂ ∧
      E .result .lowest (s₁.expect .return .program) result s₂ ∧
      program.run s =
        (⟨s.spanSince (s₂.expect .semicolon .resultEnd), s.spanSince s₁, body, result⟩,
          (s₂.expect .semicolon .resultEnd).expect .endOfFile .programEnd) := by
  have hlen := s.length_input_lt_inSight
  obtain ⟨hl, hS⟩ := hb.complete h s.inSight s he hlen
  have hreturn := hl.trans (.expect (m := .return) (by simp) .program _)
  obtain ⟨hl', hE⟩ := h.expr s.inSight .result (hreturn.ends he)
    (by have := hreturn.length_le he; omega)
  exact ⟨_, _, _, _, hl, hS, hl', hE, run_program s⟩

end

/-- Nothing is said of the trees. -/
theorem ExprCases.any : ExprCases (fun _ _ _ _ _ => True) (fun _ _ _ _ => True)
    (fun _ _ _ _ _ _ => True) where
  ofOperand _ _ _ _ := trivial
  var _ := trivial
  int _ := trivial
  bool _ := trivial
  parenthesis _ _ _ := trivial
  unary _ _ _ := trivial
  hole _ := trivial
  stop _ := trivial
  step _ _ _ _ _ _ := trivial

theorem BlockCases.any : BlockCases (fun _ _ _ _ => True) (fun _ _ _ => True) where
  done _ := trivial
  semicolon _ _ _ := trivial
  declare _ _ _ _ _ _ := trivial
  assign _ _ _ _ _ := trivial
  loop _ _ _ _ _ _ _ := trivial

end ParseM

/-- What is found in a source is found on a way of the parser and, behind it, where the file should
end. -/
theorem Program.leads_ofSource (file : FileId) (source : Source) :
    ∃ s, (ParseState.ofSource file source).Leads s ∧
      (ofSource file source).2 = (s.expect .endOfFile .programEnd).log := by
  obtain ⟨s₁, s₂, body, result, hl, -, hl', -, hrun⟩ :=
    ParseM.BlockCases.any.program .any (ParseState.ends_ofSource file source)
  refine ⟨s₂.expect .semicolon .resultEnd, ?_, ?_⟩
  · have hreturn := hl.trans (.expect (m := .return) (by simp) .program s₁)
    exact (hreturn.trans hl').trans (.expect (m := .semicolon) (by simp) .resultEnd s₂)
  · show (ParseM.program.run (.ofSource file source)).2.log = _
    rw [hrun]

end WhileLang
