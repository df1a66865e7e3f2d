import WhileLang.Proofs.Parser.Run
import WhileLang.Proofs.Tree.Numbers

/-!
# `WhileLang/Proofs/Parser/Numbering.lean` — a parsed tree is numbered without repetition

The parser numbers a node when it is finished, and a declaration likewise, so **the numbers of a
tree, read in the order of its nodes, are those of a counter**. They are all different as long as
there are no more than 2³² of them.

How many there are is bounded by the source: a node takes a token of its own unless it stands for a
missing expression, and of those there is at most one more than there are tokens. So a source with
`k` tokens has at most `2 * k + 1` nodes, whatever is wrong with it.

`Gives` is what the pieces of the parser have in common: the numbers they hand out and the least
number of tokens they take. It composes (`Gives.trans`), so each case below is the composition of
what the parser does in it.
-/

set_option autoImplicit false

namespace WhileLang

namespace ParseState

/-- On the way from the first state to the second these numbers were given to nodes and to
declarations, and at least `count` tokens were taken. -/
structure Gives (s s' : ParseState) (ns ds : List UInt32) (count : Nat) : Prop where
  toLeads : s.Leads s'
  nodes : Numbered s.nextNode ns
  nextNode : s'.nextNode = afterNumbers s.nextNode ns
  decls : Numbered s.nextDecl ds
  nextDecl : s'.nextDecl = afterNumbers s.nextDecl ds
  taken : s.Ends → s'.input.length + count ≤ s.input.length

@[simp] theorem nextNode_numberDecl (s : ParseState) : s.numberDecl.nextNode = s.nextNode := rfl

@[simp] theorem nextNode_expect (m : Mark) (c : ParseContext) (s : ParseState) :
    (s.expect m c).nextNode = s.nextNode := by
  unfold expect
  split <;> rfl

@[simp] theorem nextDecl_expect (m : Mark) (c : ParseContext) (s : ParseState) :
    (s.expect m c).nextDecl = s.nextDecl := by
  unfold expect
  split <;> rfl

namespace Gives

theorem trans {s s₁ s₂ : ParseState} {ns ns₁ ds ds₁ : List UInt32} {k k₁ : Nat}
    (h : s.Gives s₁ ns ds k) (h₁ : s₁.Gives s₂ ns₁ ds₁ k₁) :
    s.Gives s₂ (ns ++ ns₁) (ds ++ ds₁) (k + k₁) where
  toLeads := h.toLeads.trans h₁.toLeads
  nodes := h.nodes.append (h.nextNode ▸ h₁.nodes)
  nextNode := by rw [h₁.nextNode, h.nextNode, afterNumbers_append]
  decls := h.decls.append (h.nextDecl ▸ h₁.decls)
  nextDecl := by rw [h₁.nextDecl, h.nextDecl, afterNumbers_append]
  taken he := by
    have := h.taken he
    have := h₁.taken (h.toLeads.ends he)
    omega

/-- What leaves the counters alone gives no number. -/
theorem ofLeads {s s' : ParseState} (h : s.Leads s') (hn : s'.nextNode = s.nextNode)
    (hd : s'.nextDecl = s.nextDecl) : s.Gives s' [] [] 0 where
  toLeads := h
  nodes := .nil _
  nextNode := by rw [hn, afterNumbers_nil]
  decls := .nil _
  nextDecl := by rw [hd, afterNumbers_nil]
  taken he := h.length_le he

theorem advance {s : ParseState} (ha : s.ahead.lexeme ≠ .mark .endOfFile) :
    s.Gives s.advance [] [] 1 :=
  { ofLeads (Leads.advance ha) rfl rfl with
    taken := fun he => Nat.le_of_eq (length_input_advance he ha) }

theorem report (s : ParseState) (e : Expected) (c : ParseContext) :
    s.Gives (s.report e c) [] [] 0 :=
  ofLeads (.report s e c) rfl rfl

theorem expect {m : Mark} (hm : m ≠ .endOfFile) (c : ParseContext) (s : ParseState) :
    s.Gives (s.expect m c) [] [] 0 :=
  ofLeads (.expect hm c s) (nextNode_expect ..) (nextDecl_expect ..)

theorem afterSymbol (c : ParseContext) (s : ParseState) :
    s.Gives (s.afterSymbol c) [] [] 0 := by
  refine ofLeads (.afterSymbol c s) ?_ ?_ <;> unfold ParseState.afterSymbol <;> split <;> rfl

theorem numberNode (s : ParseState) : s.Gives s.numberNode [s.nextNode] [] 0 where
  toLeads := .numberNode s
  nodes := .singleton _
  nextNode := by rw [afterNumbers_singleton]; rfl
  decls := .nil _
  nextDecl := by rw [afterNumbers_nil]; rfl
  taken _ := Nat.le_refl _

theorem numberDecl (s : ParseState) : s.Gives s.numberDecl [] [s.nextDecl] 0 where
  toLeads := .numberDecl s
  nodes := .nil _
  nextNode := by rw [afterNumbers_nil]; rfl
  decls := .singleton _
  nextDecl := by rw [afterNumbers_singleton]; rfl
  taken _ := Nat.le_refl _

theorem beginDeclaration (s : ParseState) : s.advance.Gives s.beginDeclaration [] [] 0 :=
  (afterSymbol _ _).trans (expect (by simp) _ _)

theorem beginAssignment (s : ParseState) : s.advance.Gives s.beginAssignment [] [] 0 :=
  expect (by simp) _ _

/-- A token that becomes a node. -/
theorem leaf {s : ParseState} (ha : s.ahead.lexeme ≠ .mark .endOfFile) :
    s.Gives s.advance.numberNode [s.nextNode] [] 1 :=
  (advance ha).trans (.numberNode _)

end Gives

/-! ## Expressions -/

/-- An expression was read on the way: its nodes have the numbers given, and there is at most one
hole more than there are tokens. -/
def GivesExpr (s : ParseState) (e : Expr) (s' : ParseState) : Prop :=
  ∃ taken, s.Gives s' e.numbers [] taken ∧ e.numbers.length ≤ taken + e.holes ∧
    e.holes ≤ taken + 1

/-- The expression `lhs` was extended to `e` on the way. -/
def GivesMore (lhs : Expr) (s : ParseState) (e : Expr) (s' : ParseState) : Prop :=
  ∃ more holes taken, s.Gives s' more [] taken ∧ e.numbers = lhs.numbers ++ more ∧
    e.holes = lhs.holes + holes ∧ more.length ≤ taken + holes ∧ holes ≤ taken

theorem givesExpr_cases : ParseM.ExprCases (fun _ _ => GivesExpr) (fun _ => GivesExpr)
    (fun _ _ => GivesMore) where
  ofOperand := by
    rintro _ _ s s₁ s₂ lhs e - - ⟨k, h, hn, hh⟩ ⟨more, holes, k₁, h₁, he, heh, hn₁, hh₁⟩
    refine ⟨k + k₁, he ▸ h.trans h₁, ?_, by omega⟩
    rw [he, List.length_append]
    omega
  var ha := ⟨1, .leaf (by simp [ha]), by simp [Expr.numbers], by simp [Expr.holes]⟩
  int ha := ⟨1, .leaf (by simp [ha]), by simp [Expr.numbers], by simp [Expr.holes]⟩
  bool {_ _ b} ha :=
    ⟨1, .leaf (by cases b <;> simp [ha]), by simp [Expr.numbers], by simp [Expr.holes]⟩
  parenthesis := by
    rintro _ s s₁ e ha - ⟨k, h, hn, hh⟩
    have hp := ((Gives.advance (by simp [ha])).trans h).trans
      (.expect (m := .parenR) (by simp) .parenthesis s₁)
    exact ⟨1 + k + 0, by simpa using hp, by omega, by omega⟩
  unary := by
    rintro _ s s₁ op e ha - ⟨k, h, hn, hh⟩
    have hne : s.ahead.lexeme ≠ .mark .endOfFile := by simpa [ha] using op.mark_ne_endOfFile
    have hp := ((Gives.advance hne).trans h).trans (.numberNode s₁)
    refine ⟨1 + k + 0, hp, ?_, by simp only [Expr.holes]; omega⟩
    simp only [Expr.numbers, Expr.holes, List.length_append, List.length_singleton]
    omega
  hole {context s} _ :=
    ⟨0, (Gives.report s .operand context).trans (.numberNode _), by simp [Expr.numbers, Expr.holes],
      by simp [Expr.holes]⟩
  stop {_ s _ lhs} _ := ⟨[], 0, 0, .ofLeads (.refl s) rfl rfl, by simp, rfl, by simp, by simp⟩
  step := by
    rintro begin s s₁ s₂ _ op lhs rhs e ha - - - ⟨k, h, hn, hh⟩
      ⟨more, holes, k₁, h₁, he, heh, hn₁, hh₁⟩
    have hne : s.ahead.lexeme ≠ .mark .endOfFile := by simpa [ha] using op.mark_ne_endOfFile
    have hp := ((Gives.advance hne).trans h).trans ((Gives.numberNode s₁).trans h₁)
    -- the operator is a token, which makes up for the hole that its operand may be
    refine ⟨rhs.numbers ++ (s₁.nextNode :: more), rhs.holes + holes, 1 + k + (0 + k₁),
      by simpa using hp, ?_, ?_, ?_, by omega⟩
    · simp [he, Expr.numbers, nodeSince]
    · simp only [heh, Expr.holes]
      omega
    · simp only [List.length_append, List.length_cons]
      omega

/-! ## Blocks -/

/-- A block was read on the way: its nodes and declarations have the numbers given, and there are
no more holes than tokens. -/
def GivesBlock (s : ParseState) (b : Block) (s' : ParseState) : Prop :=
  ∃ taken, s.Gives s' b.numbers b.declNumbers taken ∧ b.numbers.length ≤ taken + b.holes ∧
    b.holes ≤ taken

theorem givesBlock_cases : ParseM.BlockCases (fun _ => GivesExpr) GivesBlock where
  done {s} _ := ⟨0, .ofLeads (.refl s) rfl rfl, by simp [Block.numbers], by simp [Block.holes]⟩
  semicolon := by
    rintro s s₁ b ha - ⟨k, h, hn, hh⟩
    have hp := (Gives.advance (by simp [ha])).trans h
    exact ⟨1 + k, by simpa using hp, by omega, by omega⟩
  declare := by
    rintro s s₁ s₂ m ty init rest ha hty - ⟨k, h, hn, hh⟩ - ⟨k₁, h₁, hn₁, hh₁⟩
    have hne := ahead_ne_endOfFile_of_type ha hty
    have hbegin := (Gives.advance hne).trans (.beginDeclaration s)
    have hend := (Gives.expect (m := .semicolon) (by simp) .declarationEnd s₁).trans
      ((Gives.numberDecl _).trans (.numberNode _))
    have hp := ((hbegin.trans h).trans hend).trans h₁
    refine ⟨_, by simpa [Block.numbers, Block.declNumbers, nodeSince] using hp, ?_, ?_⟩
    · simp only [Block.numbers, Block.holes, List.length_append, List.length_singleton]
      omega
    · simp only [Block.holes]
      omega
  assign := by
    rintro s s₁ s₂ x value rest ha - ⟨k, h, hn, hh⟩ - ⟨k₁, h₁, hn₁, hh₁⟩
    have hbegin := (Gives.advance (by simp [ha])).trans (.beginAssignment s)
    have hend := (Gives.expect (m := .semicolon) (by simp) .assignmentEnd s₁).trans
      (.numberNode _)
    have hp := ((hbegin.trans h).trans hend).trans h₁
    refine ⟨_, by simpa [Block.numbers, Block.declNumbers, nodeSince] using hp, ?_, ?_⟩
    · simp only [Block.numbers, Block.holes, List.length_append, List.length_singleton]
      omega
    · simp only [Block.holes]
      omega
  loop := by
    rintro s s₁ s₂ s₃ cond body rest ha - ⟨k, h, hn, hh⟩ - ⟨k₁, h₁, hn₁, hh₁⟩ -
      ⟨k₂, h₂, hn₂, hh₂⟩
    have hcond := ((Gives.advance (by simp [ha])).trans h).trans
      (.expect (m := .braceL) (by simp) .loop _)
    have hend := (Gives.expect (m := .braceR) (by simp) .loop s₂).trans (.numberNode _)
    have hp := ((hcond.trans h₁).trans hend).trans h₂
    refine ⟨_, by simpa [Block.numbers, Block.declNumbers, nodeSince] using hp, ?_, ?_⟩
    · simp only [Block.numbers, Block.holes, List.length_append, List.length_singleton]
      omega
    · simp only [Block.holes]
      omega

/-! ## Programs -/

/-- A program was read on the way, up to the end of the file: there is at most one hole more than
there are tokens. -/
theorem gives_program {s : ParseState} (he : s.Ends) :
    let r := ParseM.program.run s
    ∃ s' taken, s.Gives s' r.1.numbers r.1.body.declNumbers taken ∧
      r.1.numbers.length ≤ taken + r.1.holes ∧ r.1.holes ≤ taken + 1 ∧
      r.2 = s'.expect .endOfFile .programEnd := by
  obtain ⟨s₁, s₂, body, result, -, ⟨k, h, hn, hh⟩, -, ⟨k₁, h₁, hn₁, hh₁⟩, hp⟩ :=
    givesBlock_cases.program givesExpr_cases he
  have hall := ((h.trans (.expect (m := .return) (by simp) .program s₁)).trans h₁).trans
    (.expect (m := .semicolon) (by simp) .resultEnd s₂)
  rw [hp]
  refine ⟨_, _, by simpa [Program.numbers] using hall, ?_, ?_, rfl⟩
  · simp only [Program.numbers, Program.holes, List.length_append]
    omega
  · simp only [Program.holes]
    omega

end ParseState

namespace Program

/-- **What the numbers of a parsed program are.** Nodes and declarations are counted from zero, a
node is a lexeme or a hole, and there is at most one hole more than there are lexemes. -/
theorem numbered_ofSource (file : FileId) (source : Source) :
    let p := (ofSource file source).1
    Numbered 0 p.numbers ∧ Numbered 0 p.body.declNumbers ∧
      p.numbers.length ≤ (lexemes source.chars).length + p.holes ∧
      p.holes ≤ (lexemes source.chars).length + 1 := by
  intro p
  have he := ParseState.ends_ofSource file source
  obtain ⟨s, k, h, hn, hh, -⟩ := ParseState.gives_program he
  have htaken := h.taken he
  rw [ParseState.input_ofSource] at htaken
  have hn : p.numbers.length ≤ k + p.holes := hn
  have hh : p.holes ≤ k + 1 := hh
  exact ⟨h.nodes, h.decls, by omega, by omega⟩

end Program

end WhileLang
