import WhileLang.Proofs.Parser.Findings
import WhileLang.Proofs.Parser.Grammar
import WhileLang.Proofs.Parser.Language
import WhileLang.Proofs.Parser.Whole

/-!
# `WhileLang/Proofs/Parser/Accepts.lean` — the parser accepts exactly the language

The parser is greedy, looks one token ahead, and goes on after every mismatch. **It complains about
no program of the language, and lets nothing else pass** (`Program.accepts_iff`).

Both directions go through the ways of the parser. What was read without a complaint is derived by
the grammar (`Takes`): a mismatch leaves a complaint and no way loses one. Conversely the lexemes of
a derived expression are all read (`Passes`): an operand takes as much of the tail behind it as the
levels say, and **what it leaves of the tail is again a tail**, for the operators around it.
-/

set_option autoImplicit false

namespace WhileLang

namespace ParseState

/-! ## What was read without a complaint is derived -/

/-- Unless there are new complaints, the lexemes taken on the way are such. -/
def Takes (s s' : ParseState) (P : List Lexeme → Prop) : Prop :=
  s.Tells s' (∃ ls, s.input = ls ++ s'.input ∧ P ls)

namespace Takes

variable {s s₁ s₂ : ParseState} {P Q : List Lexeme → Prop}

theorem trans (h : s.Takes s₁ P) (h₁ : s₁.Takes s₂ Q) :
    s.Takes s₂ fun ls => ∃ as bs, ls = as ++ bs ∧ P as ∧ Q bs := by
  refine (Tells.trans h h₁).imp ?_
  rintro ⟨⟨as, ha, hP⟩, bs, hb, hQ⟩
  exact ⟨as ++ bs, by rw [ha, hb, List.append_assoc], as, bs, rfl, hP, hQ⟩

theorem imp (h : s.Takes s₁ P) (f : ∀ ls, P ls → Q ls) : s.Takes s₁ Q := by
  refine Tells.imp h ?_
  rintro ⟨ls, hls, hP⟩
  exact ⟨ls, hls, f ls hP⟩

/-- Where the input stays, nothing more is taken. -/
theorem numberNode (h : s.Takes s₁ P) : s.Takes s₁.numberNode P :=
  (Tells.trans h (.numberNode s₁)).imp And.left

theorem numberDecl (h : s.Takes s₁ P) : s.Takes s₁.numberDecl P :=
  (Tells.trans h (.numberDecl s₁)).imp And.left

theorem stay (s : ParseState) : s.Takes s (· = []) :=
  (Tells.refl s).imp fun _ => ⟨[], rfl, rfl⟩

theorem report (s : ParseState) (e : Expected) (c : ParseContext) :
    s.Takes (s.report e c) P :=
  (Tells.report s e c).imp False.elim

theorem advance {l : Lexeme} (ha : s.ahead.lexeme = l) (hl : l ≠ .mark .endOfFile) :
    s.Takes s.advance (· = [l]) where
  toLeads := .advance (ha ▸ hl)
  le := (complaints_advance s).ge
  told _ hn := ⟨[l], ha ▸ input_advance hn.1 (ha ▸ hl), rfl⟩

theorem expect {m : Mark} (hm : m ≠ .endOfFile) (c : ParseContext) (s : ParseState) :
    s.Takes (s.expect m c) (· = [.mark m]) := by
  unfold ParseState.expect
  split
  · rename_i ha
    exact advance ha (by simpa using hm)
  · exact report s _ c

theorem afterSymbol (c : ParseContext) (s : ParseState) :
    s.Takes (s.afterSymbol c) (· = [.name s.symbolAhead.name]) := by
  unfold ParseState.afterSymbol symbolAhead
  split
  · rename_i ha
    exact advance ha (by simp)
  · exact report s _ c

end Takes

/-- What follows an expression extends it to another. -/
theorem takes_expr_cases : ParseM.ExprCases (fun _ _ s _ s' => s.Takes s' IsExpr)
    (fun _ s _ s' => s.Takes s' IsExpr)
    (fun _ _ _ s _ s' => s.Takes s' fun ls => ∀ ks, IsExpr ks → IsExpr (ks ++ ls)) where
  ofOperand _ _ hO hR := by
    refine (hO.trans hR).imp ?_
    rintro _ ⟨os, ts, rfl, ho, ht⟩
    exact ht os ho
  var {_ s x} ha := by
    refine (Takes.advance ha (by simp)).numberNode.imp ?_
    rintro _ rfl
    exact .name x
  int {_ s v} ha := by
    refine (Takes.advance ha (by simp)).numberNode.imp ?_
    rintro _ rfl
    exact .literal v
  bool {_ s b} ha := by
    refine (Takes.advance ha (by cases b <;> simp)).numberNode.imp ?_
    rintro _ rfl
    cases b
    · exact .false
    · exact .true
  parenthesis {_ s s₁ e} ha _ hE := by
    refine (((Takes.advance ha (by simp)).trans hE).trans (.expect (by simp) _ _)).imp ?_
    rintro _ ⟨_, _, rfl, ⟨_, ls, rfl, rfl, hls⟩, rfl⟩
    exact .parenthesis hls
  unary {_ s s₁ op e} ha _ hE := by
    refine ((Takes.advance ha (by simpa using op.mark_ne_endOfFile)).trans hE).numberNode.imp ?_
    rintro _ ⟨_, ls, rfl, rfl, hls⟩
    exact .unary op hls
  hole _ := (Takes.report _ _ _).numberNode
  stop _ := by
    refine (Takes.stay _).imp ?_
    rintro _ rfl ks hks
    rwa [List.append_nil]
  step {_ s s₁ s₂ level op lhs rhs e} ha _ _ _ hE hR := by
    have hop := (Takes.advance ha (by simpa using op.mark_ne_endOfFile)).trans hE
    refine (hop.numberNode.trans hR).imp ?_
    rintro _ ⟨_, ts, rfl, ⟨_, rs, rfl, rfl, hrs⟩, hts⟩ ks hks
    rw [← List.append_assoc]
    exact hts _ (.binary op hks hrs)

theorem takes_block_cases : ParseM.BlockCases (fun _ s _ s' => s.Takes s' IsExpr)
    (fun s _ s' => s.Takes s' IsStmts) where
  done _ := by
    refine (Takes.stay _).imp ?_
    rintro _ rfl
    exact .done
  semicolon ha _ hS := by
    refine ((Takes.advance ha (by simp)).trans hS).imp ?_
    rintro _ ⟨_, ls, rfl, rfl, hls⟩
    exact .semicolon hls
  declare {s s₁ s₂ m ty init rest} ha hty _ hX _ hS := by
    have hm : m = .int ∨ m = .bool := by cases m <;> simp [Ty.ofMark?] at hty ⊢
    have hbegin := ((Takes.advance ha (by simpa using Ty.ne_endOfFile_of_ofMark? hty)).trans
      (.afterSymbol .declaredName s.advance)).trans
        (.expect (m := .assign) (by simp) .declaration _)
    have hend := (hbegin.trans hX).trans (.expect (m := .semicolon) (by simp) .declarationEnd s₁)
    refine (hend.numberDecl.numberNode.trans hS).imp ?_
    rintro _ ⟨_, rs, rfl, ⟨_, _, rfl, ⟨_, es, rfl, ⟨_, _, rfl, ⟨_, _, rfl, rfl, rfl⟩, rfl⟩, hes⟩,
      rfl⟩, hrs⟩
    exact .statement (.declare hm hes) hrs
  assign {s s₁ s₂ x value rest} ha _ hX _ hS := by
    have hbegin := (Takes.advance ha (by simp)).trans
      (.expect (m := .assign) (by simp) .assignment s.advance)
    have hend := (hbegin.trans hX).trans (.expect (m := .semicolon) (by simp) .assignmentEnd s₁)
    refine (hend.numberNode.trans hS).imp ?_
    rintro _ ⟨_, rs, rfl, ⟨_, _, rfl, ⟨_, es, rfl, ⟨_, _, rfl, rfl, rfl⟩, hes⟩, rfl⟩, hrs⟩
    exact .statement (.assign hes) hrs
  loop {s s₁ s₂ s₃ cond body rest} ha _ hX _ hB _ hS := by
    have hcond := ((Takes.advance ha (by simp)).trans hX).trans
      (.expect (m := .braceL) (by simp) .loop s₁)
    have hend := (hcond.trans hB).trans (.expect (m := .braceR) (by simp) .loop s₂)
    refine (hend.numberNode.trans hS).imp ?_
    rintro _ ⟨_, rs, rfl, ⟨_, _, rfl, ⟨_, bs, rfl, ⟨_, _, rfl, ⟨_, es, rfl, rfl, hes⟩, rfl⟩, hbs⟩,
      rfl⟩, hrs⟩
    have h := IsStmts.statement (.loop hes hbs) hrs
    simpa using h

/-! ## What is derived is read without a complaint -/

/-- The input is left as `rest`, and there are no new complaints. -/
structure Passes (s s' : ParseState) (rest : List Lexeme) : Prop where
  ends : s'.Ends
  input : s'.input = rest
  complaints : s'.complaints = s.complaints

namespace Passes

variable {s s₁ s₂ : ParseState} {mid rest : List Lexeme}

theorem trans (h : s.Passes s₁ mid) (h₁ : s₁.Passes s₂ rest) : s.Passes s₂ rest :=
  ⟨h₁.ends, h₁.input, h₁.complaints.trans h.complaints⟩

theorem numberNode (h : s.Passes s₁ rest) : s.Passes s₁.numberNode rest :=
  ⟨h.ends, h.input, h.complaints⟩

theorem numberDecl (h : s.Passes s₁ rest) : s.Passes s₁.numberDecl rest :=
  ⟨h.ends, h.input, h.complaints⟩

theorem refl (he : s.Ends) (hin : s.input = rest) : s.Passes s rest := ⟨he, hin, rfl⟩

theorem advance (he : s.Ends) {l : Lexeme} (hin : s.input = l :: rest) :
    s.Passes s.advance rest := by
  have h := input_advance he (ahead_ne_endOfFile hin)
  rw [hin, List.cons.injEq] at h
  exact ⟨he.advance, h.2.symm, complaints_advance s⟩

theorem expect (h : s.Passes s₁ mid) {m : Mark} (hm : mid = .mark m :: rest) (c : ParseContext) :
    s.Passes (s₁.expect m c) rest := by
  have hin := h.input.trans hm
  rw [ParseState.expect, if_pos (ahead_of_input hin)]
  exact h.trans (advance h.ends hin)

end Passes

/-- A part of the tail is left for the operators around, which stand below the level. -/
def Leaves (level : Level) (s s' : ParseState) (rest : List Lexeme) : Prop :=
  ∃ left, IsTail left ∧ Below level (left ++ rest) ∧ s.Passes s' (left ++ rest)

/-- At the lowest level nothing of the tail is left. -/
theorem Leaves.passes {s s' : ParseState} {rest : List Lexeme} (h : Leaves .lowest s s' rest) :
    s.Passes s' rest := by
  obtain ⟨left, ht, hb, hp⟩ := h
  obtain rfl := ht.eq_nil hb
  exact hp

def ExprLeaves (level : Level) (s s' : ParseState) : Prop :=
  ∀ os ts rest, s.Ends → IsOperand os → IsTail ts → s.input = os ++ (ts ++ rest) →
    Below .lowest rest → Leaves level s s' rest

/-- After the operand, some of the tail is left. An operand takes more than its own lexemes where it
begins with an operator that stands below those of the tail. -/
def OperandLeaves (s s' : ParseState) : Prop :=
  ∀ os ts rest, s.Ends → IsOperand os → IsTail ts → s.input = os ++ (ts ++ rest) →
    Below .lowest rest → ∃ left, IsTail left ∧ s.Passes s' (left ++ rest)

def MoreLeaves (level : Level) (s s' : ParseState) : Prop :=
  ∀ ts rest, s.Ends → IsTail ts → s.input = ts ++ rest → Below .lowest rest →
    Leaves level s s' rest

theorem ExprLeaves.passes {s s' : ParseState} (h : ExprLeaves .lowest s s') {ls rest : List Lexeme}
    (he : s.Ends) (hls : IsExpr ls) (hin : s.input = ls ++ rest) (hb : Below .lowest rest) :
    s.Passes s' rest := by
  obtain ⟨os, ts, rfl, ho, ht⟩ := hls.flat
  rw [List.append_assoc] at hin
  exact (h os ts rest he ho ht hin hb).passes

theorem head?_operand {s : ParseState} {os rest : List Lexeme} (ho : IsOperand os)
    (hin : s.input = os ++ rest) : os.head? = some s.ahead.lexeme := by
  obtain ⟨l, ls, rfl, -⟩ := ho.begins
  rw [ahead_of_input hin, List.head?_cons]

/-- An operand of one lexeme is taken as it is. -/
theorem operandLeaves_leaf {s : ParseState} {l : Lexeme} (ha : s.ahead.lexeme = l)
    (hl : l.isLeaf = true) : OperandLeaves s s.advance.numberNode := by
  intro os ts rest he ho ht hin hb
  obtain rfl := ho.of_leaf (ha ▸ head?_operand ho hin) hl
  exact ⟨ts, ht, (Passes.advance he hin).numberNode⟩

theorem leaves_expr_cases : ParseM.ExprCases (fun _ level s _ s' => ExprLeaves level s s')
    (fun _ s _ s' => OperandLeaves s s') (fun _ level _ s _ s' => MoreLeaves level s s') where
  ofOperand _ _ hO hR := by
    intro os ts rest he ho ht hin hb
    obtain ⟨left, hleft, hp⟩ := hO os ts rest he ho ht hin hb
    obtain ⟨left', hleft', hbelow, hp'⟩ := hR left rest hp.ends hleft hp.input hb
    exact ⟨left', hleft', hbelow, hp.trans hp'⟩
  var ha := operandLeaves_leaf ha rfl
  int ha := operandLeaves_leaf ha rfl
  bool {_ s b} ha := operandLeaves_leaf ha (by cases b <;> rfl)
  parenthesis {_ s s₁ e} ha _ hE := by
    intro os ts rest he ho ht hin hb
    obtain ⟨ls, rfl, hls⟩ := ho.of_parenthesis (ha ▸ head?_operand ho hin)
    have hin' : s.input = .mark .parenL :: (ls ++ .mark .parenR :: (ts ++ rest)) := by
      rw [hin]
      simp
    have h₁ := Passes.advance he hin'
    have h₂ := hE.passes h₁.ends hls h₁.input (.of_mark rfl _ _)
    exact ⟨ts, ht, (h₁.trans h₂).expect rfl _⟩
  unary {_ s s₁ op e} ha _ hE := by
    intro os ts rest he ho ht hin hb
    obtain ⟨ls, rfl, hls⟩ := ho.of_unary (ha ▸ head?_operand ho hin)
    have h₁ := Passes.advance he hin
    obtain ⟨left, hleft, -, h₂⟩ := hE ls ts rest h₁.ends hls ht h₁.input hb
    exact ⟨left, hleft, (h₁.trans h₂).numberNode⟩
  hole {_ s} hbegin := by
    intro os ts rest he ho ht hin hb
    obtain ⟨l, ls, rfl, hl⟩ := ho.begins
    rw [ahead_of_input hin, hl] at hbegin
    exact absurd hbegin (by simp)
  stop {_ s level _} hstop := by
    intro ts rest he ht hin hb
    refine ⟨ts, ht, fun op hop => hstop op ?_, .refl he hin⟩
    exact head?_input (hin ▸ hop)
  step {_ s s₁ s₂ level op _ _ _} ha _ _ _ hE hR := by
    intro ts rest he ht hin hb
    have hhead : (ts ++ rest).head? = some (.mark op.mark) := by
      have h := input_advance he (by simpa [ha] using op.mark_ne_endOfFile)
      rw [← hin, h, ha, List.head?_cons]
    obtain ⟨os, us, rfl, ho, hu⟩ := ht.of_operator hhead hb
    have hin' : s.input = .mark op.mark :: (os ++ (us ++ rest)) := by
      rw [hin]
      simp
    have h₁ := Passes.advance he hin'
    -- what the right operand leaves of the tail is what follows the operator and its operands
    obtain ⟨left, hleft, -, h₂⟩ := hE os us rest h₁.ends ho hu h₁.input hb
    have h₃ := (h₁.trans h₂).numberNode
    obtain ⟨left', hleft', hbelow, h₄⟩ := hR left rest h₃.ends hleft h₃.input hb
    exact ⟨left', hleft', hbelow, h₃.trans h₄⟩

/-- Statements up to where none is ahead are read as such. -/
def BlockPasses (s s' : ParseState) : Prop :=
  ∀ ls rest, s.Ends → IsStmts ls → s.input = ls ++ rest →
    (∀ l, rest.head? = some l → ParseM.beginsStatement l = false) → s.Passes s' rest

/-- A statement that is ahead belongs to the statements and not to what follows them. -/
theorem head?_statements {s : ParseState} {ls rest : List Lexeme} (hin : s.input = ls ++ rest)
    (hrest : ∀ l, rest.head? = some l → ParseM.beginsStatement l = false)
    (hb : ParseM.beginsStatement s.ahead.lexeme = true) : ls.head? = some s.ahead.lexeme := by
  cases ls with
  | cons l ls => rw [ahead_of_input hin, List.head?_cons]
  | nil =>
    cases rest with
    | nil =>
      rw [ahead_of_input_eq_nil hin] at hb
      simp [ParseM.beginsStatement] at hb
    | cons l rest =>
      rw [ahead_of_input hin, hrest l rfl] at hb
      simp at hb

theorem passes_block_cases : ParseM.BlockCases (fun _ s _ s' => ExprLeaves .lowest s s')
    (fun s _ s' => BlockPasses s s') where
  done {s} hbegin := by
    intro ls rest he hls hin hrest
    obtain rfl := hls.of_done fun l hl => by
      obtain ⟨more, rfl⟩ := List.head?_eq_some_iff.1 hl
      rwa [← ahead_of_input hin]
    exact .refl he hin
  semicolon {s s₁ b} ha _ hS := by
    intro ls rest he hls hin hrest
    obtain ⟨ls', rfl, hls'⟩ :=
      hls.of_semicolon (ha ▸ head?_statements hin hrest (by rw [ha]; rfl))
    have h₁ := Passes.advance he hin
    exact h₁.trans (hS ls' rest h₁.ends hls' h₁.input hrest)
  declare {s s₁ s₂ m ty init _} ha hty _ hX _ hS := by
    intro ls rest he hls hin hrest
    have hbegin : ParseM.beginsStatement s.ahead.lexeme = true := by
      rw [ha]
      cases m <;> simp [Ty.ofMark?] at hty <;> rfl
    obtain ⟨x, es, ls', rfl, hes, hls'⟩ :=
      hls.of_type hty (ha ▸ head?_statements hin hrest hbegin)
    rw [List.cons_append, List.cons_append, List.cons_append, List.append_assoc,
      List.cons_append] at hin
    have h₁ := Passes.advance he hin
    have hsym : s.Passes (s.advance.afterSymbol .declaredName)
        (.mark .assign :: (es ++ .mark .semicolon :: (ls' ++ rest))) := by
      rw [afterSymbol, ahead_of_input h₁.input]
      exact h₁.trans (.advance h₁.ends h₁.input)
    have h₂ : s.Passes s.beginDeclaration _ := hsym.expect rfl .declaration
    have h₃ := h₂.trans (hX.passes h₂.ends hes h₂.input (.of_mark rfl _ _))
    have h₄ := (h₃.expect rfl .declarationEnd).numberDecl.numberNode
    exact h₄.trans (hS ls' rest h₄.ends hls' h₄.input hrest)
  assign {s s₁ s₂ x value _} ha _ hX _ hS := by
    intro ls rest he hls hin hrest
    obtain ⟨es, ls', rfl, hes, hls'⟩ :=
      hls.of_name (ha ▸ head?_statements hin hrest (by rw [ha]; rfl))
    rw [List.cons_append, List.cons_append, List.append_assoc, List.cons_append] at hin
    have h₂ : s.Passes s.beginAssignment _ := (Passes.advance he hin).expect rfl .assignment
    have h₃ := h₂.trans (hX.passes h₂.ends hes h₂.input (.of_mark rfl _ _))
    have h₄ := (h₃.expect rfl .assignmentEnd).numberNode
    exact h₄.trans (hS ls' rest h₄.ends hls' h₄.input hrest)
  loop {s s₁ s₂ s₃ cond body _} ha _ hX _ hB _ hS := by
    intro ls rest he hls hin hrest
    obtain ⟨es, bs, ls', rfl, hes, hbs, hls'⟩ :=
      hls.of_while (ha ▸ head?_statements hin hrest (by rw [ha]; rfl))
    have hin' : s.input = .mark .while ::
        (es ++ .mark .braceL :: (bs ++ .mark .braceR :: (ls' ++ rest))) := by
      rw [hin]
      simp
    have h₁ := Passes.advance he hin'
    have h₂ := h₁.trans (hX.passes h₁.ends hes h₁.input (.of_mark rfl _ _))
    have h₃ := h₂.expect rfl .loop
    have hbrace : ∀ l, (Lexeme.mark .braceR :: (ls' ++ rest)).head? = some l →
        ParseM.beginsStatement l = false := by
      rintro _ ⟨⟩
      rfl
    have h₄ := h₃.trans (hB bs _ h₃.ends hbs h₃.input hbrace)
    have h₅ := (h₄.expect rfl .loop).numberNode
    exact h₅.trans (hS ls' rest h₅.ends hls' h₅.input hrest)

end ParseState

/-! ## Sources -/

namespace ParseState

/-- At the end of the file nothing is to come. -/
theorem input_eq_nil {s : ParseState} (ha : s.ahead.lexeme = .mark .endOfFile) : s.input = [] := by
  simp [input, ha]

/-- What is expected is not complained about exactly where it is there. -/
theorem complaints_expect_iff {s : ParseState} {m : Mark} {c : ParseContext} :
    (s.expect m c).complaints = s.complaints ↔ s.ahead.lexeme = .mark m := by
  unfold expect
  split
  · rename_i ha
    exact ⟨fun _ => ha, fun _ => complaints_advance s⟩
  · rename_i ha
    rw [complaints_report]
    exact ⟨fun h => absurd h (Nat.succ_ne_self _), fun h => absurd h ha⟩

/-- Where the end of the file is found without any complaint, all lexemes were taken. -/
theorem Takes.lexemes {file : FileId} {source : Source} {s : ParseState} {P : List Lexeme → Prop}
    (h : (ParseState.ofSource file source).Takes s P)
    (hc : (s.expect .endOfFile .programEnd).complaints = 0) : P (lexemes source.chars) := by
  have hin := ParseState.input_ofSource file source
  have hn : (ParseState.ofSource file source).Named :=
    ⟨ParseState.ends_ofSource file source, fun x hx => isName_of_mem (hin ▸ hx)⟩
  have hstart := ParseState.complaints_ofSource file source
  -- there are no complaints at the end, so there were none at any time
  have hle := ParseState.complaints_expect .endOfFile .programEnd s
  have hnone : s.complaints = 0 := by omega
  have hnil := input_eq_nil (complaints_expect_iff.1 (hc.trans hnone.symm))
  obtain ⟨ls, hls, hP⟩ := h.told (hnone.trans hstart.symm) hn
  rw [hin, hnil, List.append_nil] at hls
  exact hls ▸ hP

end ParseState

namespace Program

theorem isProgram_of_countOf {file : FileId} {source : Source}
    (h : (ofSource file source).2.countOf .parse = 0) :
    IsProgram (lexemes source.chars ++ [.mark .endOfFile]) := by
  obtain ⟨s₁, s₂, body, result, -, hbody, -, hresult, hp⟩ :=
    ParseState.takes_block_cases.program ParseState.takes_expr_cases
      (ParseState.ends_ofSource file source)
  have hall := ((hbody.trans (.expect (m := .return) (by simp) .program s₁)).trans hresult).trans
    (.expect (m := .semicolon) (by simp) .resultEnd s₂)
  have hrun : ofSource file source = ((ParseM.program.run (.ofSource file source)).1,
    (ParseM.program.run (.ofSource file source)).2.log) := rfl
  rw [hrun, hp] at h
  obtain ⟨_, _, hls, ⟨_, es, rfl, ⟨bs, _, rfl, hbs, rfl⟩, hes⟩, rfl⟩ := hall.lexemes h
  have hprogram := IsProgram.mk hbs hes
  rw [hls]
  simpa using hprogram

theorem countOf_of_isProgram {file : FileId} {source : Source}
    (h : IsProgram (lexemes source.chars ++ [.mark .endOfFile])) :
    (ofSource file source).2.countOf .parse = 0 := by
  have he := ParseState.ends_ofSource file source
  have hstart := ParseState.complaints_ofSource file source
  have hin := ParseState.input_ofSource file source
  obtain ⟨s₁, s₂, body, result, -, hB, -, hX, hp⟩ :=
    ParseState.passes_block_cases.program ParseState.leaves_expr_cases he
  generalize hls : lexemes source.chars ++ [.mark .endOfFile] = ls at h
  cases h with
  | @mk bs es hbs hes =>
    have hinput : (ParseState.ofSource file source).input =
        bs ++ .mark .return :: (es ++ [.mark .semicolon]) := by
      have hend : lexemes source.chars ++ [.mark .endOfFile] =
          bs ++ .mark .return :: (es ++ [.mark .semicolon]) ++ [.mark .endOfFile] := by
        simpa using hls
      exact hin.trans (List.append_cancel_right hend)
    have hreturn : ∀ l, (Lexeme.mark .return :: (es ++ [.mark .semicolon])).head? = some l →
        ParseM.beginsStatement l = false := by
      rintro _ ⟨⟩
      rfl
    have h₁ := (hB bs _ he hbs hinput hreturn).expect rfl .program
    have h₂ := h₁.trans (hX.passes h₁.ends hes h₁.input (.of_mark rfl _ _))
    have h₃ := h₂.expect rfl .resultEnd
    have hrun : ofSource file source = ((ParseM.program.run (.ofSource file source)).1,
      (ParseM.program.run (.ofSource file source)).2.log) := rfl
    rw [hrun, hp]
    exact (ParseState.complaints_expect_iff.2 (ParseState.ahead_of_input_eq_nil h₃.input)).trans
      (h₃.complaints.trans hstart)

/-- Among the findings of a parse, those about structure are those of their kind. -/
theorem countOf_parse_ofSource_iff (file : FileId) (source : Source) :
    (ofSource file source).2.countOf .parse = 0 ↔
      ∀ d ∈ (ofSource file source).2.toList, d.kind ≠ .parse := by
  rw [Log.countOf, List.countP_eq_zero]
  refine forall₂_congr fun d hd => ?_
  simp [(isOfParse_ofSource file source d hd).1]

/-- **The parser finds no fault of structure exactly in the programs of the language.** In such a
program nothing is missing: no expression, no symbol, and no type of a declaration. -/
theorem accepts_iff (file : FileId) (source : Source) :
    let tokens := (Lexer.ofSource file source).tokens
    let p := (ofSource file source).1
    let log := (ofSource file source).2
    ((∀ d ∈ log.toList, d.kind ≠ .parse) ↔ IsProgram (tokens.map (·.lexeme))) ∧
    ((∀ d ∈ log.toList, d.kind ≠ .parse) →
      (∀ e ∈ p.exprs, (∀ n, e ≠ .hole n) ∧ ∀ n s, e = .var n s → s.isError = false) ∧
      (∀ d ∈ p.body.declarations, d.symbol.isError = false ∧ d.ty ≠ .unknown) ∧
      ∀ a ∈ p.body.assignments, a.symbol.isError = false) := by
  simp only [Lexer.lexemes_tokens_ofSource, ← countOf_parse_ofSource_iff]
  refine ⟨⟨isProgram_of_countOf, countOf_of_isProgram⟩, fun h => ?_⟩
  have hw : (ofSource file source).1.Whole := whole_ofSource h
  refine ⟨fun e he => ⟨?_, ?_⟩, fun d hd => ?_, fun a ha => ?_⟩
  · rintro n rfl
    exact hw.of_mem_exprs he
  · rintro n s rfl
    exact IsName.isError_eq_false (hw.of_mem_exprs he)
  · obtain ⟨hty, hname⟩ := hw.1.of_mem_declarations hd
    exact ⟨hname.isError_eq_false, hty⟩
  · exact (hw.1.of_mem_assignments ha).isError_eq_false

/-- Prefix operators on both sides of binary ones, and a program that lacks one bracket. -/
theorem accepts_iff_brackets :
    IsProgram ((Lexer.ofSource ⟨0⟩ (.ofString
      "int x = -2; while not x * -1 < (x) and true \x7b;; x = x - 1;\x7d return x;")).tokens.map
        (·.lexeme)) ∧
    ¬ IsProgram ((Lexer.ofSource ⟨0⟩ (.ofString "return (1 + 2;")).tokens.map (·.lexeme)) := by
  constructor
  · have hnone : ∀ d ∈ (ofSource ⟨0⟩ (.ofString
        "int x = -2; while not x * -1 < (x) and true \x7b;; x = x - 1;\x7d return x;")).2.toList,
        d.kind ≠ .parse := by decide +kernel
    exact (accepts_iff _ _).1.1 hnone
  · intro h
    have hsome : ¬ ∀ d ∈ (ofSource ⟨0⟩ (.ofString "return (1 + 2;")).2.toList,
        d.kind ≠ .parse := by decide +kernel
    exact hsome ((accepts_iff _ _).1.2 h)

end Program

end WhileLang
