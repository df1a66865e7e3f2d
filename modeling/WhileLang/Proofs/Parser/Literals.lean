import WhileLang.Proofs.Parser.Accepts
import WhileLang.Proofs.Token.Tiling
import WhileLang.Proofs.Tree.Integers

/-!
# `WhileLang/Proofs/Parser/Literals.lean` — the integers of a tree are the literals of its source

What was read without a complaint has all its literals in the tree, **in the order in which they are
written**, and no integer that was not written (`Program.ints_ofSource`). So what is asked of the
integers of a program can be asked of its source.
-/

set_option autoImplicit false

namespace WhileLang

def Lexeme.literal? : Lexeme → Option Int64
  | .literal v => some v
  | .mark _ | .name _ => none

/-- The values of the literals, from left to right. -/
def literals (ls : List Lexeme) : List Int64 :=
  ls.filterMap Lexeme.literal?

theorem mem_literals {v : Int64} {ls : List Lexeme} : v ∈ literals ls ↔ .literal v ∈ ls := by
  rw [literals, List.mem_filterMap]
  constructor
  · rintro ⟨l, hl, hv⟩
    cases l with
    | literal w =>
      obtain rfl : w = v := Option.some.inj hv
      exact hl
    | mark m | name x => cases hv
  · intro h
    exact ⟨_, h, rfl⟩

/-- A literal of a text has a spelling there, and its value is that of the spelling. -/
theorem exists_spelling {text : List Char} {v : Int64} (h : .literal v ∈ lexemes text) :
    ∃ spelling, .token spelling (.literal v) ∈ pieces text ∧ literalValue spelling = v := by
  obtain ⟨p, hp, hl⟩ := List.mem_filterMap.1 h
  -- only tokens have a lexeme
  cases p with
  | token spelling l =>
    obtain rfl : l = .literal v := Option.some.inj hl
    exact ⟨spelling, hp, (tokenText_of_mem_pieces hp).digits.2.2⟩
  | blank d | stray d => cases hl

/-- Digits below 2⁶³ are read as they are. -/
theorem literalValue_nonneg {spelling : List Char}
    (h : Nat.ofDigitChars 10 spelling 0 < 9223372036854775808) : 0 ≤ literalValue spelling := by
  rw [literalValue, Int64.le_iff_toInt_le, Int64.toInt_ofNat_of_lt h, Int64.toInt_zero]
  exact Int.natCast_nonneg _

namespace ParseState

/-- Unless there are new complaints, these are the literals taken on the way. -/
def Lists (s s' : ParseState) (vs : List Int64) : Prop :=
  s.Takes s' (literals · = vs)

namespace Lists

variable {s s₁ s₂ : ParseState} {vs ws : List Int64}

theorem trans (h : s.Lists s₁ vs) (h₁ : s₁.Lists s₂ ws) : s.Lists s₂ (vs ++ ws) := by
  refine (Takes.trans h h₁).imp ?_
  rintro _ ⟨as, bs, rfl, rfl, rfl⟩
  exact List.filterMap_append

theorem numberNode (h : s.Lists s₁ vs) : s.Lists s₁.numberNode vs :=
  Takes.numberNode h

theorem numberDecl (h : s.Lists s₁ vs) : s.Lists s₁.numberDecl vs :=
  Takes.numberDecl h

theorem stay (s : ParseState) : s.Lists s [] := by
  refine (Takes.stay s).imp ?_
  rintro _ rfl
  rfl

theorem report (s : ParseState) (e : Expected) (c : ParseContext) : s.Lists (s.report e c) vs :=
  Takes.report s e c

theorem advance {l : Lexeme} (ha : s.ahead.lexeme = l) (hl : l ≠ .mark .endOfFile) :
    s.Lists s.advance l.literal?.toList := by
  refine (Takes.advance ha hl).imp ?_
  rintro _ rfl
  cases l <;> rfl

theorem expect {m : Mark} (hm : m ≠ .endOfFile) (c : ParseContext) (s : ParseState) :
    s.Lists (s.expect m c) [] := by
  refine (Takes.expect hm c s).imp ?_
  rintro _ rfl
  rfl

theorem afterSymbol (c : ParseContext) (s : ParseState) : s.Lists (s.afterSymbol c) [] := by
  refine (Takes.afterSymbol c s).imp ?_
  rintro _ ⟨x, rfl⟩
  rfl

end Lists

/-- What follows an operand adds its integers to those of the operand. -/
theorem lists_expr_cases : ParseM.ExprCases (fun _ _ s e s' => s.Lists s' e.ints)
    (fun _ s e s' => s.Lists s' e.ints)
    (fun _ _ lhs s e s' => ∃ vs, e.ints = lhs.ints ++ vs ∧ s.Lists s' vs) where
  ofOperand _ _ hO hR := by
    obtain ⟨vs, he, hvs⟩ := hR
    rw [he]
    exact hO.trans hvs
  var ha := (Lists.advance ha (by simp)).numberNode
  int ha := (Lists.advance ha (by simp)).numberNode
  bool {_ s b} ha := (Lists.advance ha (by cases b <;> simp)).numberNode
  parenthesis {_ s s₁ e} ha _ hE := by
    have h := ((Lists.advance ha (by simp)).trans hE).trans
      (.expect (m := .parenR) (by simp) .parenthesis s₁)
    rwa [List.append_nil] at h
  unary {_ s s₁ op e} ha _ hE :=
    ((Lists.advance ha (by simpa using op.mark_ne_endOfFile)).trans hE).numberNode
  hole _ := (Lists.report _ _ _).numberNode
  stop _ := ⟨[], (List.append_nil _).symm, .stay _⟩
  step {_ s s₁ s₂ level op lhs rhs e} ha _ _ _ hE hR := by
    obtain ⟨vs, he, hvs⟩ := hR
    have hop := (Lists.advance ha (by simpa using op.mark_ne_endOfFile)).trans hE
    exact ⟨rhs.ints ++ vs, by rw [he, Expr.ints, List.append_assoc], hop.numberNode.trans hvs⟩

theorem lists_block_cases : ParseM.BlockCases (fun _ s e s' => s.Lists s' e.ints)
    (fun s b s' => s.Lists s' b.ints) where
  done _ := .stay _
  semicolon ha _ hS := (Lists.advance ha (by simp)).trans hS
  declare {s s₁ s₂ m ty init rest} ha hty _ hX _ hS := by
    have hname := (Lists.advance ha (by simpa using Ty.ne_endOfFile_of_ofMark? hty)).trans
      (.afterSymbol .declaredName s.advance)
    have hbegin := hname.trans (.expect (m := .assign) (by simp) .declaration _)
    have hend := (hbegin.trans hX).trans (.expect (m := .semicolon) (by simp) .declarationEnd s₁)
    have h := hend.numberDecl.numberNode.trans hS
    rwa [List.append_nil] at h
  assign {s s₁ s₂ x value rest} ha _ hX _ hS := by
    have hbegin := (Lists.advance ha (by simp)).trans
      (.expect (m := .assign) (by simp) .assignment s.advance)
    have hend := (hbegin.trans hX).trans (.expect (m := .semicolon) (by simp) .assignmentEnd s₁)
    have h := hend.numberNode.trans hS
    rwa [List.append_nil] at h
  loop {s s₁ s₂ s₃ cond body rest} ha _ hX _ hB _ hS := by
    have hcond := ((Lists.advance ha (by simp)).trans hX).trans
      (.expect (m := .braceL) (by simp) .loop s₁)
    have hend := (hcond.trans hB).trans (.expect (m := .braceR) (by simp) .loop s₂)
    have h := hend.numberNode.trans hS
    rwa [List.append_nil, List.append_nil] at h

end ParseState

/-- **Without complaints the integers of a tree are the literals of its source.** -/
theorem Program.ints_ofSource {file : FileId} {source : Source}
    (h : (ofSource file source).2.countOf .parse = 0) :
    (ofSource file source).1.ints = literals (WhileLang.lexemes source.chars) := by
  obtain ⟨s₁, s₂, body, result, -, hbody, -, hresult, hp⟩ :=
    ParseState.lists_block_cases.program ParseState.lists_expr_cases
      (ParseState.ends_ofSource file source)
  have hall := ((hbody.trans (.expect (m := .return) (by simp) .program s₁)).trans hresult).trans
    (.expect (m := .semicolon) (by simp) .resultEnd s₂)
  have hrun : ofSource file source = ((ParseM.program.run (.ofSource file source)).1,
    (ParseM.program.run (.ofSource file source)).2.log) := rfl
  rw [hrun, hp] at h ⊢
  rw [ParseState.Takes.lexemes hall h, List.append_nil, List.append_nil]
  rfl

end WhileLang
