import Mathlib.Logic.Function.Iterate
import WhileLang.Proofs.Parser.Run
import WhileLang.Proofs.Token.Reading
import WhileLang.Proofs.Tree.Shape

/-!
# `WhileLang/Proofs/Parser/Grammar.lean` — what the parser reads, as rules on lexemes

The rules here say **which tree stands at the begin of a list of lexemes, and what is left after
it**. They have no states, places, numbers or reports in them, and they are what the parser does
where it finds nothing to complain about. They are greedy as the parser is: after an operand every
operator is taken that stands at the level or above, and `MoreAt.stop` says that there is none.

`Program.ofSource_of_programAt` is the direction that a round trip needs: a source whose lexemes
form a program by these rules, with no stray character among them, is parsed to that program without
a word.
-/

set_option autoImplicit false

namespace WhileLang

/-! ## The rules -/

mutual

/-- An expression, the operators of which stand at the level or above. -/
inductive ExprAt : Level → List Lexeme → Expr → List Lexeme → Prop where
  | ofOperand {level : Level} {input mid rest : List Lexeme} {lhs e : Expr} :
    OperandAt input lhs mid → MoreAt level lhs mid e rest → ExprAt level input e rest

/-- An operand. -/
inductive OperandAt : List Lexeme → Expr → List Lexeme → Prop where
  | var {x : String} {rest : List Lexeme} :
    OperandAt (.name x :: rest) (.var .bare ⟨x, default⟩) rest
  | int {v : Int64} {rest : List Lexeme} : OperandAt (.literal v :: rest) (.int .bare v) rest
  | bool {b : Bool} {rest : List Lexeme} :
    OperandAt (.mark (if b then .true else .false) :: rest) (.bool .bare b) rest
  | parenthesis {input rest : List Lexeme} {e : Expr} :
    ExprAt .lowest input e (.mark .parenR :: rest) → OperandAt (.mark .parenL :: input) e rest
  | unary {op : UnaryOp} {input rest : List Lexeme} {e : Expr} :
    ExprAt op.level input e rest → OperandAt (.mark op.mark :: input) (.unary .bare op e) rest

/-- What follows the operand `lhs`, up to where no operator at the level or above is ahead. -/
inductive MoreAt : Level → Expr → List Lexeme → Expr → List Lexeme → Prop where
  | stop {level : Level} {lhs : Expr} {rest : List Lexeme} :
    (∀ op : BinaryOp, rest.head? = some (.mark op.mark) → op.level.rank < level.rank) →
    MoreAt level lhs rest lhs rest
  | step {level : Level} {op : BinaryOp} {lhs rhs e : Expr} {input mid rest : List Lexeme} :
    level.rank ≤ op.level.rank → ExprAt op.rightLevel input rhs mid →
    MoreAt level (.binary .bare op lhs rhs) mid e rest →
    MoreAt level lhs (.mark op.mark :: input) e rest

end

/-- Statements, up to where none is ahead. -/
inductive BlockAt : List Lexeme → Block → List Lexeme → Prop where
  | done {rest : List Lexeme} :
    (∀ l, rest.head? = some l → ParseM.beginsStatement l = false) → BlockAt rest .done rest
  | semicolon {input rest : List Lexeme} {b : Block} :
    BlockAt input b rest → BlockAt (.mark .semicolon :: input) b rest
  | declare {m : Mark} {ty : Ty} {x : String} {input mid rest : List Lexeme} {init : Expr}
      {b : Block} : Ty.ofMark? m = some ty →
    ExprAt .lowest input init (.mark .semicolon :: mid) → BlockAt mid b rest →
    BlockAt (.mark m :: .name x :: .mark .assign :: input)
      (.declare ⟨.bare, ⟨0⟩, ty, ⟨x, default⟩, init⟩ b) rest
  | assign {x : String} {input mid rest : List Lexeme} {value : Expr} {b : Block} :
    ExprAt .lowest input value (.mark .semicolon :: mid) → BlockAt mid b rest →
    BlockAt (.name x :: .mark .assign :: input) (.assign ⟨.bare, ⟨x, default⟩, value⟩ b) rest
  | loop {input mid mid' rest : List Lexeme} {cond : Expr} {body b : Block} :
    ExprAt .lowest input cond (.mark .braceL :: mid) →
    BlockAt mid body (.mark .braceR :: mid') → BlockAt mid' b rest →
    BlockAt (.mark .while :: input) (.loop ⟨.bare, cond, default⟩ body b) rest

/-- A program, and nothing after it. -/
inductive ProgramAt : List Lexeme → Program → Prop where
  | mk {input mid : List Lexeme} {body : Block} {result : Expr} :
    BlockAt input body (.mark .return :: mid) → ExprAt .lowest mid result [.mark .semicolon] →
    ProgramAt input ⟨default, default, body, result⟩

/-- Every operand begins with a lexeme that can begin one. -/
theorem OperandAt.begins {input rest : List Lexeme} {e : Expr} (h : OperandAt input e rest) :
    ∃ l ls, input = l :: ls ∧ ParseM.beginsOperand l = true := by
  cases h with
  | var | int | parenthesis => exact ⟨_, _, rfl, rfl⟩
  | @bool b => exact ⟨_, _, rfl, by cases b <;> rfl⟩
  | @unary op => exact ⟨_, _, rfl, by cases op <;> rfl⟩

/-! ## Which rule applies, by the first lexeme -/

namespace OperandAt

variable {ls rest : List Lexeme} {e : Expr}

theorem of_bool {b : Bool} (h : OperandAt (.mark (if b then .true else .false) :: ls) e rest) :
    e = .bool .bare b ∧ rest = ls := by
  generalize hl : Lexeme.mark (if b then .true else .false) :: ls = input at h
  cases h with
  | var | int => simp at hl
  | @bool b' => cases b <;> cases b' <;> simp_all
  | parenthesis => cases b <;> simp at hl
  | @unary op => cases b <;> cases op <;> simp [UnaryOp.mark] at hl

theorem of_parenthesis (h : OperandAt (.mark .parenL :: ls) e rest) :
    ExprAt .lowest ls e (.mark .parenR :: rest) := by
  generalize hl : Lexeme.mark .parenL :: ls = input at h
  cases h with
  | var | int => simp at hl
  | @bool b => cases b <;> simp at hl
  | parenthesis h =>
    obtain ⟨-, rfl⟩ := List.cons.inj hl
    exact h
  | @unary op => cases op <;> simp [UnaryOp.mark] at hl

theorem of_unary {op : UnaryOp} (h : OperandAt (.mark op.mark :: ls) e rest) :
    ∃ e', e = .unary .bare op e' ∧ ExprAt op.level ls e' rest := by
  generalize hl : Lexeme.mark op.mark :: ls = input at h
  cases h with
  | var | int => simp at hl
  | @bool b => cases b <;> cases op <;> simp [UnaryOp.mark] at hl
  | parenthesis => cases op <;> simp [UnaryOp.mark] at hl
  | @unary op' _ _ e' h =>
    simp only [List.cons.injEq, Lexeme.mark.injEq, UnaryOp.mark_inj] at hl
    obtain ⟨rfl, rfl⟩ := hl
    exact ⟨e', rfl, h⟩

end OperandAt

theorem MoreAt.of_operator {level : Level} {op : BinaryOp} {lhs e : Expr} {ls rest : List Lexeme}
    (h : MoreAt level lhs (.mark op.mark :: ls) e rest) (hle : level.rank ≤ op.level.rank) :
    ∃ rhs mid, ExprAt op.rightLevel ls rhs mid ∧
      MoreAt level (.binary .bare op lhs rhs) mid e rest := by
  generalize hl : Lexeme.mark op.mark :: ls = input at h
  cases h with
  | stop hstop => exact absurd hle (Nat.not_le_of_lt (hstop op (hl ▸ rfl)))
  | @step _ op' _ rhs _ _ mid _ _ hrhs hmore =>
    simp only [List.cons.injEq, Lexeme.mark.injEq, BinaryOp.mark_inj] at hl
    obtain ⟨rfl, rfl⟩ := hl
    exact ⟨rhs, mid, hrhs, hmore⟩

namespace BlockAt

variable {ls rest : List Lexeme} {b : Block}

theorem of_done (h : BlockAt ls b rest)
    (hb : ∀ l, ls.head? = some l → ParseM.beginsStatement l = false) : b = .done ∧ rest = ls := by
  cases h with
  | done => exact ⟨rfl, rfl⟩
  | semicolon | assign | loop => exact absurd (hb _ rfl) (by simp [ParseM.beginsStatement])
  | @declare m _ _ _ _ _ _ _ hty =>
    have := hb _ rfl
    cases m <;> simp [Ty.ofMark?, ParseM.beginsStatement] at hty this

theorem of_semicolon (h : BlockAt (.mark .semicolon :: ls) b rest) : BlockAt ls b rest := by
  cases h with
  | done hd => exact absurd (hd _ rfl) (by simp [ParseM.beginsStatement])
  | semicolon h => exact h
  | declare hty => simp [Ty.ofMark?] at hty

theorem of_type {m : Mark} {ty : Ty} (hm : Ty.ofMark? m = some ty)
    (h : BlockAt (.mark m :: ls) b rest) :
    ∃ x input init mid b', ls = .name x :: .mark .assign :: input ∧
      b = .declare ⟨.bare, ⟨0⟩, ty, ⟨x, default⟩, init⟩ b' ∧
      ExprAt .lowest input init (.mark .semicolon :: mid) ∧ BlockAt mid b' rest := by
  cases h with
  | done hd =>
    have := hd _ rfl
    cases m <;> simp [Ty.ofMark?, ParseM.beginsStatement] at hm this
  | semicolon | loop => simp [Ty.ofMark?] at hm
  | @declare _ _ x input mid _ init b' hty hinit hrest =>
    rw [hm, Option.some.injEq] at hty
    exact ⟨x, input, init, mid, b', rfl, by rw [hty], hinit, hrest⟩

theorem of_name {x : String} (h : BlockAt (.name x :: ls) b rest) :
    ∃ input value mid b', ls = .mark .assign :: input ∧
      b = .assign ⟨.bare, ⟨x, default⟩, value⟩ b' ∧
      ExprAt .lowest input value (.mark .semicolon :: mid) ∧ BlockAt mid b' rest := by
  cases h with
  | done hd => exact absurd (hd _ rfl) (by simp [ParseM.beginsStatement])
  | @assign _ input mid _ value b' hvalue hrest =>
    exact ⟨input, value, mid, b', rfl, rfl, hvalue, hrest⟩

theorem of_while (h : BlockAt (.mark .while :: ls) b rest) :
    ∃ cond mid body mid' b', b = .loop ⟨.bare, cond, default⟩ body b' ∧
      ExprAt .lowest ls cond (.mark .braceL :: mid) ∧
      BlockAt mid body (.mark .braceR :: mid') ∧ BlockAt mid' b' rest := by
  cases h with
  | done hd => exact absurd (hd _ rfl) (by simp [ParseM.beginsStatement])
  | declare hty => simp [Ty.ofMark?] at hty
  | @loop _ mid mid' _ cond body b' hcond hbody hrest =>
    exact ⟨cond, mid, body, mid', b', rfl, hcond, hbody, hrest⟩

end BlockAt

namespace ParseState

/-! ## States that differ by tokens taken -/

/-- A state without the numbers it gives next: what the lexer left, and what was found. -/
def unnumbered (s : ParseState) : ParseState := { s with nextNode := 0, nextDecl := 0 }

/-- The input is left as `rest`. To get there, tokens were taken and numbers given, and that is
all. -/
structure Arrives (s s' : ParseState) (rest : List Lexeme) : Prop where
  ends : s'.Ends
  input : s'.input = rest
  taking : ∃ n, s.input.length = n + rest.length ∧
    s'.unnumbered = ParseState.advance^[n] s.unnumbered

theorem Arrives.trans {s s₁ s₂ : ParseState} {mid rest : List Lexeme} (h : s.Arrives s₁ mid)
    (h₁ : s₁.Arrives s₂ rest) : s.Arrives s₂ rest := by
  obtain ⟨n, hn, hs⟩ := h.taking
  obtain ⟨m, hm, hs'⟩ := h₁.taking
  refine ⟨h₁.ends, h₁.input, m + n, ?_, ?_⟩
  · rw [h.input] at hm
    omega
  · rw [hs', hs, Function.iterate_add_apply]

theorem Ends.refl {s : ParseState} (h : s.Ends) : s.Arrives s s.input :=
  ⟨h, rfl, 0, (Nat.zero_add _).symm, rfl⟩

theorem Ends.numberNode {s : ParseState} (h : s.Ends) : s.Arrives s.numberNode s.input :=
  ⟨h, rfl, 0, (Nat.zero_add _).symm, rfl⟩

theorem Ends.numberDecl {s : ParseState} (h : s.Ends) : s.Arrives s.numberDecl s.input :=
  ⟨h, rfl, 0, (Nat.zero_add _).symm, rfl⟩

theorem ahead_of_input {s : ParseState} {l : Lexeme} {ls : List Lexeme} (h : s.input = l :: ls) :
    s.ahead.lexeme = l := by
  unfold input at h
  rw [List.map_cons, List.takeWhile_cons] at h
  split at h
  · exact (List.cons.inj h).1
  · simp at h

theorem ahead_of_input_eq_nil {s : ParseState} (h : s.input = []) :
    s.ahead.lexeme = .mark .endOfFile := by
  unfold input at h
  rw [List.map_cons, List.takeWhile_cons] at h
  split at h
  · simp at h
  · rename_i he
    simpa using he

theorem head?_input {s : ParseState} {l : Lexeme} (h : s.input.head? = some l) :
    s.ahead.lexeme = l := by
  rw [List.head?_eq_some_iff] at h
  obtain ⟨ls, hls⟩ := h
  exact ahead_of_input hls

theorem ahead_ne_endOfFile {s : ParseState} {l : Lexeme} {ls : List Lexeme}
    (h : s.input = l :: ls) : s.ahead.lexeme ≠ .mark .endOfFile := by
  intro he
  unfold input at h
  rw [List.map_cons, List.takeWhile_cons, if_neg (by simp [he])] at h
  simp at h

theorem Ends.arrives_advance {s : ParseState} (h : s.Ends) {l : Lexeme} {ls : List Lexeme}
    (hi : s.input = l :: ls) : s.Arrives s.advance ls := by
  have hin := input_advance h (ahead_ne_endOfFile hi)
  rw [hi, List.cons.injEq] at hin
  refine ⟨h.advance, hin.2.symm, 1, ?_, rfl⟩
  rw [hi, List.length_cons, Nat.add_comm]

/-- The lexeme ahead is the first of the input, and it can be taken. -/
theorem Ends.take {s : ParseState} (h : s.Ends) {l : Lexeme} (ha : s.ahead.lexeme = l)
    (hl : s.ahead.lexeme ≠ .mark .endOfFile) :
    s.input = l :: s.advance.input ∧ s.Arrives s.advance s.advance.input := by
  have hin := input_advance h hl
  rw [ha] at hin
  exact ⟨hin, h.arrives_advance hin⟩

theorem Ends.expect {s : ParseState} (h : s.Ends) {m : Mark} {ls : List Lexeme}
    (hi : s.input = .mark m :: ls) (c : ParseContext) : s.Arrives (s.expect m c) ls := by
  rw [ParseState.expect, if_pos (ahead_of_input hi)]
  exact h.arrives_advance hi

/-! ## States with nothing left to complain about -/

/-- There are no stray characters to come. -/
def Clean (s : ParseState) : Prop :=
  s.Ends ∧ (∀ r ∈ s.lexer.upcoming, r.strays = []) ∧ s.lexer.final.strays = []

/-- Taking a token of a clean state reports nothing, at the end of the file too. -/
theorem Clean.clean_advance {s : ParseState} (h : s.Clean) :
    s.advance.Clean ∧ s.advance.log = s.log := by
  obtain ⟨he, hu, hf⟩ := h
  cases hup : s.lexer.upcoming with
  | nil =>
    refine ⟨⟨he.advance, ?_, ?_⟩, ?_⟩ <;> simp [ParseState.advance, Lexer.next, hup, hf, Log.append]
  | cons r rs =>
    rw [hup, List.forall_mem_cons] at hu
    refine ⟨⟨he.advance, ?_, ?_⟩, ?_⟩
    · simpa [ParseState.advance, Lexer.next, hup] using hu.2
    · simpa [ParseState.advance, Lexer.next, hup] using hf
    · simp [ParseState.advance, Lexer.next, hup, hu.1, Log.append]

theorem Clean.clean_iterate {s : ParseState} (h : s.Clean) (n : Nat) :
    (ParseState.advance^[n] s).Clean ∧ (ParseState.advance^[n] s).log = s.log := by
  induction n with
  | zero => exact ⟨h, rfl⟩
  | succ n ih =>
    rw [Function.iterate_succ_apply']
    obtain ⟨hc, hlog⟩ := ih
    exact ⟨hc.clean_advance.1, hc.clean_advance.2.trans hlog⟩

/-- From a clean state nothing is reported on the way. -/
theorem Arrives.clean {s s' : ParseState} {rest : List Lexeme} (h : s.Arrives s' rest)
    (hc : s.Clean) : s'.Clean ∧ s'.log = s.log := by
  obtain ⟨n, -, hs⟩ := h.taking
  have hstart : s.unnumbered.Clean := hc
  have hn := hstart.clean_iterate n
  rw [← hs] at hn
  exact hn

/-! ## Expressions -/

/-- The parser comes to `e` as the rules say. -/
def ExprMet (level : Level) (s : ParseState) (e : Expr) (s' : ParseState) : Prop :=
  ∀ t rest, s.Ends → ExprAt level s.input t rest → e.bare = t ∧ s.Arrives s' rest

def OperandMet (s : ParseState) (e : Expr) (s' : ParseState) : Prop :=
  ∀ t rest, s.Ends → OperandAt s.input t rest → e.bare = t ∧ s.Arrives s' rest

def MoreMet (level : Level) (lhs : Expr) (s : ParseState) (e : Expr) (s' : ParseState) : Prop :=
  ∀ t rest, s.Ends → MoreAt level lhs.bare s.input t rest → e.bare = t ∧ s.Arrives s' rest

/-- What the parser takes is the first lexeme of the input, and that tells which rule applies. -/
theorem exprMet_cases : ParseM.ExprCases (fun _ => ExprMet) (fun _ => OperandMet)
    (fun _ => MoreMet) where
  ofOperand := by
    intro _ level s s₁ s₂ lhs e _ _ hO hR t rest hs h
    cases h with
    | ofOperand hlhs hmore =>
      obtain ⟨rfl, h₁⟩ := hO _ _ hs hlhs
      rw [← h₁.input] at hmore
      obtain ⟨he, h₂⟩ := hR _ _ h₁.ends hmore
      exact ⟨he, h₁.trans h₂⟩
  var := by
    intro _ s x ha t rest hs h
    obtain ⟨hin, h₁⟩ := hs.take ha (by simp [ha])
    rw [hin] at h
    cases h
    exact ⟨rfl, h₁.trans (h₁.input ▸ h₁.ends.numberNode)⟩
  int := by
    intro _ s v ha t rest hs h
    obtain ⟨hin, h₁⟩ := hs.take ha (by simp [ha])
    rw [hin] at h
    cases h
    exact ⟨rfl, h₁.trans (h₁.input ▸ h₁.ends.numberNode)⟩
  bool := by
    intro _ s b ha t rest hs h
    obtain ⟨hin, h₁⟩ := hs.take ha (by cases b <;> simp [ha])
    rw [hin] at h
    obtain ⟨rfl, rfl⟩ := h.of_bool
    exact ⟨rfl, h₁.trans (h₁.input ▸ h₁.ends.numberNode)⟩
  parenthesis := by
    intro _ s s₁ e ha _ hE t rest hs h
    obtain ⟨hin, h₁⟩ := hs.take ha (by simp [ha])
    rw [hin] at h
    obtain ⟨he, h₂⟩ := hE _ _ h₁.ends h.of_parenthesis
    exact ⟨he, (h₁.trans h₂).trans (h₂.ends.expect h₂.input _)⟩
  unary := by
    intro _ s s₁ op e ha _ hE t rest hs h
    obtain ⟨hin, h₁⟩ := hs.take ha (by simpa [ha] using op.mark_ne_endOfFile)
    rw [hin] at h
    obtain ⟨e', rfl, hop⟩ := h.of_unary
    obtain ⟨rfl, h₂⟩ := hE _ _ h₁.ends hop
    exact ⟨rfl, (h₁.trans h₂).trans (h₂.input ▸ h₂.ends.numberNode)⟩
  hole := by
    intro _ s hb t rest hs h
    obtain ⟨l, ls, hin, hl⟩ := h.begins
    rw [ahead_of_input hin, hl] at hb
    exact absurd hb (by simp)
  stop := by
    intro _ s level lhs hstop t rest hs h
    generalize hin : s.input = input at h
    cases h with
    | stop => exact ⟨rfl, hin ▸ hs.refl⟩
    | step hle => exact absurd hle (Nat.not_le_of_lt (hstop _ (ahead_of_input hin)))
  step := by
    intro begin s s₁ s₂ level op lhs rhs e ha hle _ _ hE hR t rest hs h
    obtain ⟨hin, h₁⟩ := hs.take ha (by simpa [ha] using op.mark_ne_endOfFile)
    rw [hin] at h
    obtain ⟨rhs', mid, hrhs, hmore⟩ := h.of_operator hle
    obtain ⟨rfl, h₂⟩ := hE _ _ h₁.ends hrhs
    have h₃ := h₂.ends.numberNode
    rw [← h₂.input] at hmore
    obtain ⟨he, h₄⟩ := hR _ _ h₃.ends hmore
    exact ⟨he, ((h₁.trans h₂).trans h₃).trans h₄⟩

/-! ## Blocks -/

/-- The parser comes to a block of the shape that the rules say. -/
def BlockMet (s : ParseState) (b : Block) (s' : ParseState) : Prop :=
  ∀ t rest, s.Ends → BlockAt s.input t rest → b.shape = t ∧ s.Arrives s' rest

/-- What follows a statement is the input that its last state has. -/
theorem blockMet_cases : ParseM.BlockCases (fun _ => ExprMet .lowest) BlockMet where
  done := by
    intro s hb t rest hs h
    obtain ⟨rfl, rfl⟩ := h.of_done fun l hl => head?_input hl ▸ hb
    exact ⟨rfl, hs.refl⟩
  semicolon := by
    intro s s₁ b ha _ hS t rest hs h
    obtain ⟨hin, h₁⟩ := hs.take ha (by simp [ha])
    rw [hin] at h
    obtain ⟨hb, h₂⟩ := hS _ _ h₁.ends h.of_semicolon
    exact ⟨hb, h₁.trans h₂⟩
  declare := by
    intro s s₁ s₂ m ty init rest ha hty _ hX _ hS t rest' hs h
    have hne := ahead_ne_endOfFile_of_type ha hty
    obtain ⟨hin, h₁⟩ := hs.take ha hne
    rw [hin] at h
    obtain ⟨x, input, init', mid, b', hls, rfl, hinit, hrest⟩ := h.of_type hty
    rw [hls] at h₁
    -- the name and the sign are there, so they are taken without complaint
    have hsym : s.advance.symbolAhead.bare = ⟨x, default⟩ := by
      rw [symbolAhead, ahead_of_input h₁.input]
      rfl
    have hbegin : s.advance.Arrives s.beginDeclaration input := by
      rw [beginDeclaration, afterSymbol, ahead_of_input h₁.input]
      have h₂ := h₁.ends.arrives_advance h₁.input
      exact h₂.trans (h₂.ends.expect h₂.input _)
    rw [← hbegin.input] at hinit
    obtain ⟨rfl, h₂⟩ := hX _ _ hbegin.ends hinit
    have h₃ := h₂.ends.expect h₂.input .declarationEnd
    have h₄ := h₃.ends.numberDecl.trans h₃.ends.numberDecl.ends.numberNode
    rw [← h₃.input] at hrest
    obtain ⟨rfl, h₅⟩ := hS _ _ h₄.ends hrest
    refine ⟨?_, ((((h₁.trans hbegin).trans h₂).trans h₃).trans h₄).trans h₅⟩
    simp only [Block.shape, Declaration.bare, hsym]
  assign := by
    intro s s₁ s₂ x value rest ha _ hX _ hS t rest' hs h
    obtain ⟨hin, h₁⟩ := hs.take ha (by simp [ha])
    rw [hin] at h
    obtain ⟨input, value', mid, b', hls, rfl, hvalue, hrest⟩ := h.of_name
    rw [hls] at h₁
    have hbegin : s.advance.Arrives s.beginAssignment input :=
      h₁.ends.expect h₁.input .assignment
    rw [← hbegin.input] at hvalue
    obtain ⟨rfl, h₂⟩ := hX _ _ hbegin.ends hvalue
    have h₃ := h₂.ends.expect h₂.input .assignmentEnd
    have h₄ := h₃.ends.numberNode
    rw [← h₃.input] at hrest
    obtain ⟨rfl, h₅⟩ := hS _ _ h₄.ends hrest
    exact ⟨rfl, ((((h₁.trans hbegin).trans h₂).trans h₃).trans h₄).trans h₅⟩
  loop := by
    intro s s₁ s₂ s₃ cond body rest ha _ hX _ hB _ hS t rest' hs h
    obtain ⟨hin, h₁⟩ := hs.take ha (by simp [ha])
    rw [hin] at h
    obtain ⟨cond', mid, body', mid', b', rfl, hcond, hbody, hrest⟩ := h.of_while
    obtain ⟨rfl, h₂⟩ := hX _ _ h₁.ends hcond
    have h₃ := h₂.ends.expect h₂.input .loop
    rw [← h₃.input] at hbody
    obtain ⟨rfl, h₄⟩ := hB _ _ h₃.ends hbody
    have h₅ := h₄.ends.expect h₄.input .loop
    have h₆ := h₅.ends.numberNode
    rw [← h₅.input] at hrest
    obtain ⟨rfl, h₇⟩ := hS _ _ h₆.ends hrest
    exact ⟨rfl, (((((h₁.trans h₂).trans h₃).trans h₄).trans h₅).trans h₆).trans h₇⟩

/-! ## The state before the first token -/

/-- Where no character is stray, the parser begins in a clean state with nothing reported. -/
theorem clean_ofSource (file : FileId) {source : Source}
    (h : ∀ c, .stray c ∉ pieces source.chars) :
    (ofSource file source).Clean ∧ (ofSource file source).log = .empty := by
  obtain ⟨hu, hf⟩ := Lexer.strays_ofPieces file .start h
  have he := ends_ofSource file source
  have hs : ofSource file source =
      .start (.ofPieces file .start (pieces source.chars)) .empty := rfl
  rw [hs] at he ⊢
  cases hup : (Lexer.ofPieces file .start (pieces source.chars)).upcoming with
  | nil =>
    refine ⟨⟨he, ?_, ?_⟩, ?_⟩ <;> simp [start, Lexer.next, hup, hf, Log.append]
  | cons r rs =>
    rw [hup, List.forall_mem_cons] at hu
    refine ⟨⟨he, ?_, ?_⟩, ?_⟩
    · simpa [start, Lexer.next, hup] using hu.2
    · simpa [start, Lexer.next, hup] using hf
    · simp [start, Lexer.next, hup, hu.1, Log.append]

end ParseState

/-- **A source that reads as a program is parsed to it**, and nothing is reported. -/
theorem Program.ofSource_of_programAt (file : FileId) {source : Source} {ls : List Lexeme}
    {p : Program} (hr : Reads source.chars ls) (hp : ProgramAt ls p) :
    (ofSource file source).1.shape = p ∧ (ofSource file source).2 = .empty := by
  obtain ⟨hc, hlog⟩ := ParseState.clean_ofSource file hr.2
  have hin := ParseState.input_ofSource file source
  rw [hr.1] at hin
  obtain ⟨s₁, s₂, body, result, -, hB, -, hX, hrun⟩ :=
    ParseState.blockMet_cases.program ParseState.exprMet_cases hc.1
  cases hp with
  | mk hbody hresult =>
    rw [← hin] at hbody
    obtain ⟨rfl, h₁⟩ := hB _ _ hc.1 hbody
    have h₂ := h₁.ends.expect h₁.input .program
    rw [← h₂.input] at hresult
    obtain ⟨rfl, h₃⟩ := hX _ _ h₂.ends hresult
    have h₄ := h₃.ends.expect h₃.input .resultEnd
    have hall := (((h₁.trans h₂).trans h₃).trans h₄).clean hc
    have hend : ((s₂.expect .semicolon .resultEnd).expect .endOfFile .programEnd).log =
        (s₂.expect .semicolon .resultEnd).log := by
      rw [ParseState.expect, if_pos (ParseState.ahead_of_input_eq_nil h₄.input)]
      exact hall.1.clean_advance.2
    have hsource : ofSource file source = ((ParseM.program.run (.ofSource file source)).1,
      (ParseM.program.run (.ofSource file source)).2.log) := rfl
    rw [hsource, hrun]
    exact ⟨rfl, hend.trans (hall.2.trans hlog)⟩

end WhileLang
