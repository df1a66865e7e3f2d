import WhileLang.Proofs.Parser.Run

/-!
# `WhileLang/Proofs/Parser/Language.lean` — the language, as a grammar

The grammar here says **nothing of how it is read**: a binary operator stands between any two
expressions, with no levels and no order of grouping, and a list of lexemes belongs to the language
or does not.

A parser needs another form of it. Flattened, an expression is an operand and a tail of operators
with their operands (`IsExpr.flat`), so that levels can only decide how much of the tail is taken by
whom. A list of statements is opened by its first lexeme.
-/

set_option autoImplicit false

namespace WhileLang

/-! ## The grammar -/

inductive IsExpr : List Lexeme → Prop where
  | true : IsExpr [.mark .true]
  | false : IsExpr [.mark .false]
  | name (x : String) : IsExpr [.name x]
  | literal (v : Int64) : IsExpr [.literal v]
  | parenthesis {ls : List Lexeme} : IsExpr ls →
    IsExpr (.mark .parenL :: ls ++ [.mark .parenR])
  | unary {ls : List Lexeme} (op : UnaryOp) : IsExpr ls → IsExpr (.mark op.mark :: ls)
  | binary {ls rs : List Lexeme} (op : BinaryOp) : IsExpr ls → IsExpr rs →
    IsExpr (ls ++ .mark op.mark :: rs)

mutual

inductive IsStmt : List Lexeme → Prop where
  | declare {m : Mark} {x : String} {ls : List Lexeme} : m = .int ∨ m = .bool → IsExpr ls →
    IsStmt (.mark m :: .name x :: .mark .assign :: ls ++ [.mark .semicolon])
  | assign {x : String} {ls : List Lexeme} : IsExpr ls →
    IsStmt (.name x :: .mark .assign :: ls ++ [.mark .semicolon])
  | loop {ls body : List Lexeme} : IsExpr ls → IsStmts body →
    IsStmt (.mark .while :: ls ++ .mark .braceL :: body ++ [.mark .braceR])

/-- Statements, with any number of semicolons between them. -/
inductive IsStmts : List Lexeme → Prop where
  | done : IsStmts []
  | semicolon {ls : List Lexeme} : IsStmts ls → IsStmts (.mark .semicolon :: ls)
  | statement {ls rest : List Lexeme} : IsStmt ls → IsStmts rest → IsStmts (ls ++ rest)

end

/-- A program is statements and a result, up to the end of the file. -/
inductive IsProgram : List Lexeme → Prop where
  | mk {body result : List Lexeme} : IsStmts body → IsExpr result →
    IsProgram (body ++ .mark .return :: result ++ [.mark .semicolon, .mark .endOfFile])

/-! ## The grammar, flattened -/

/-- Whether an expression can be this lexeme alone. -/
def Lexeme.isLeaf : Lexeme → Bool
  | .name _ | .literal _ => true
  | .mark m => m = .true ∨ m = .false

/-- An expression without binary operators outside of parentheses. -/
inductive IsOperand : List Lexeme → Prop where
  | leaf {l : Lexeme} : l.isLeaf = true → IsOperand [l]
  | parenthesis {ls : List Lexeme} : IsExpr ls →
    IsOperand (.mark .parenL :: ls ++ [.mark .parenR])
  | unary {ls : List Lexeme} (op : UnaryOp) : IsOperand ls → IsOperand (.mark op.mark :: ls)

/-- Binary operators, each with an operand after it. -/
inductive IsTail : List Lexeme → Prop where
  | nil : IsTail []
  | more {os ts : List Lexeme} (op : BinaryOp) : IsOperand os → IsTail ts →
    IsTail (.mark op.mark :: (os ++ ts))

theorem IsTail.append {ts us : List Lexeme} (h : IsTail ts) (h' : IsTail us) :
    IsTail (ts ++ us) := by
  induction h with
  | nil => exact h'
  | @more os ts op ho _ ih =>
    rw [List.cons_append, List.append_assoc]
    exact .more op ho ih

/-- **However an expression was derived**, it is an operand and a tail. -/
theorem IsExpr.flat {ls : List Lexeme} (h : IsExpr ls) :
    ∃ os ts, ls = os ++ ts ∧ IsOperand os ∧ IsTail ts := by
  induction h with
  | true => exact ⟨[_], [], rfl, .leaf rfl, .nil⟩
  | false => exact ⟨[_], [], rfl, .leaf rfl, .nil⟩
  | name x => exact ⟨[_], [], rfl, .leaf rfl, .nil⟩
  | literal v => exact ⟨[_], [], rfl, .leaf rfl, .nil⟩
  | parenthesis h => exact ⟨_, [], (List.append_nil _).symm, .parenthesis h, .nil⟩
  | unary op _ ih =>
    -- the sign takes the operand alone, and the tail follows both
    obtain ⟨os, ts, rfl, ho, ht⟩ := ih
    exact ⟨.mark op.mark :: os, ts, rfl, .unary op ho, ht⟩
  | binary op _ _ ihl ihr =>
    obtain ⟨os, ts, rfl, ho, ht⟩ := ihl
    obtain ⟨os', ts', rfl, ho', ht'⟩ := ihr
    exact ⟨os, ts ++ .mark op.mark :: (os' ++ ts'), by simp, ho, ht.append (.more op ho' ht')⟩

namespace IsOperand

variable {os : List Lexeme}

theorem begins (h : IsOperand os) : ∃ l ls, os = l :: ls ∧ ParseM.beginsOperand l = true := by
  cases h with
  | @leaf l hl =>
    refine ⟨l, [], rfl, ?_⟩
    cases l with
    | name x => rfl
    | literal v => rfl
    | mark m =>
      obtain rfl | rfl : m = .true ∨ m = .false := by simpa [Lexeme.isLeaf] using hl
      · rfl
      · rfl
  | parenthesis => exact ⟨_, _, rfl, rfl⟩
  | unary op => exact ⟨_, _, rfl, by cases op <;> rfl⟩

theorem of_leaf (h : IsOperand os) {l : Lexeme} (hl : os.head? = some l) (hleaf : l.isLeaf = true) :
    os = [l] := by
  cases h with
  | leaf => simpa using hl
  | parenthesis =>
    obtain rfl := Option.some.inj hl
    simp [Lexeme.isLeaf] at hleaf
  | unary op =>
    obtain rfl := Option.some.inj hl
    cases op <;> simp [Lexeme.isLeaf, UnaryOp.mark] at hleaf

theorem of_parenthesis (h : IsOperand os) (hl : os.head? = some (.mark .parenL)) :
    ∃ ls, os = .mark .parenL :: ls ++ [.mark .parenR] ∧ IsExpr ls := by
  cases h with
  | leaf hleaf =>
    obtain rfl := Option.some.inj hl
    simp [Lexeme.isLeaf] at hleaf
  | @parenthesis ls h => exact ⟨ls, rfl, h⟩
  | unary op => cases op <;> simp [UnaryOp.mark] at hl

theorem of_unary (h : IsOperand os) {op : UnaryOp} (hl : os.head? = some (.mark op.mark)) :
    ∃ ls, os = .mark op.mark :: ls ∧ IsOperand ls := by
  cases h with
  | leaf hleaf =>
    obtain rfl := Option.some.inj hl
    cases op <;> simp [Lexeme.isLeaf, UnaryOp.mark] at hleaf
  | parenthesis => cases op <;> simp [UnaryOp.mark] at hl
  | @unary ls op' h =>
    obtain hop := Lexeme.mark.inj (Option.some.inj hl)
    rw [UnaryOp.mark_inj] at hop
    exact ⟨ls, by rw [hop], h⟩

end IsOperand

/-- No operator at the level or above is ahead; at the lowest level, no operator at all. -/
def Below (level : Level) (ls : List Lexeme) : Prop :=
  ∀ op : BinaryOp, ls.head? = some (.mark op.mark) → op.level.rank < level.rank

theorem Below.of_mark {m : Mark} (hm : BinaryOp.ofMark? m = none) (level : Level)
    (ls : List Lexeme) : Below level (.mark m :: ls) := by
  intro op hop
  obtain rfl := Lexeme.mark.inj (Option.some.inj hop)
  simp at hm

/-- Where no operator is ahead, there is no tail. -/
theorem IsTail.eq_nil {ts rest : List Lexeme} (h : IsTail ts) (hb : Below .lowest (ts ++ rest)) :
    ts = [] := by
  cases h with
  | nil => rfl
  | more op => exact absurd (hb op rfl) (Nat.not_lt_zero _)

theorem IsTail.of_operator {ts rest : List Lexeme} {op : BinaryOp} (h : IsTail ts)
    (hl : (ts ++ rest).head? = some (.mark op.mark)) (hb : Below .lowest rest) :
    ∃ os us, ts = .mark op.mark :: (os ++ us) ∧ IsOperand os ∧ IsTail us := by
  cases h with
  | nil => exact absurd (hb op hl) (Nat.not_lt_zero _)
  | @more os us op' ho hu =>
    have hop := Lexeme.mark.inj (Option.some.inj hl)
    rw [BinaryOp.mark_inj] at hop
    exact ⟨os, us, by rw [hop], ho, hu⟩

/-! ## Statements, by their first lexeme -/

theorem IsStmt.begins {ls : List Lexeme} (h : IsStmt ls) :
    ∃ l rest, ls = l :: rest ∧ ParseM.beginsStatement l = true ∧ l ≠ .mark .semicolon := by
  cases h with
  | declare hm => rcases hm with rfl | rfl <;> exact ⟨_, _, rfl, rfl, by simp⟩
  | assign | loop => exact ⟨_, _, rfl, rfl, by simp⟩

namespace IsStmts

variable {ls : List Lexeme}

theorem of_done (h : IsStmts ls)
    (hl : ∀ l, ls.head? = some l → ParseM.beginsStatement l = false) : ls = [] := by
  cases h with
  | done => rfl
  | semicolon => exact absurd (hl _ rfl) (by simp [ParseM.beginsStatement])
  | statement hs =>
    obtain ⟨l, rest, rfl, hb, -⟩ := hs.begins
    exact absurd (hl l rfl) (by simp [hb])

theorem of_semicolon (h : IsStmts ls) (hl : ls.head? = some (.mark .semicolon)) :
    ∃ rest, ls = .mark .semicolon :: rest ∧ IsStmts rest := by
  cases h with
  | done => simp at hl
  | @semicolon rest h => exact ⟨rest, rfl, h⟩
  | statement hs =>
    obtain ⟨l, rest, rfl, -, hne⟩ := hs.begins
    exact absurd (Option.some.inj hl) hne

/-- Where a statement is ahead, it comes first. -/
theorem of_statement (h : IsStmts ls) {l : Lexeme} (hl : ls.head? = some l)
    (hne : l ≠ .mark .semicolon) :
    ∃ ss rest, ls = ss ++ rest ∧ IsStmt ss ∧ IsStmts rest ∧ ss.head? = some l := by
  cases h with
  | done => simp at hl
  | semicolon => exact absurd (Option.some.inj hl).symm hne
  | @statement ss rest hs hrest =>
    refine ⟨ss, rest, rfl, hs, hrest, ?_⟩
    obtain ⟨l', more, rfl, -, -⟩ := hs.begins
    exact hl

theorem of_type (h : IsStmts ls) {m : Mark} {ty : Ty} (hty : Ty.ofMark? m = some ty)
    (hl : ls.head? = some (.mark m)) :
    ∃ x init rest, ls = .mark m :: .name x :: .mark .assign :: (init ++ .mark .semicolon :: rest) ∧
      IsExpr init ∧ IsStmts rest := by
  obtain ⟨ss, rest, rfl, hs, hrest, hl⟩ :=
    h.of_statement hl (by rintro hm; cases m <;> simp [Ty.ofMark?] at hm hty)
  cases hs with
  | @declare m' x init _ hinit =>
    obtain rfl := Lexeme.mark.inj (Option.some.inj hl)
    exact ⟨x, init, rest, by simp, hinit, hrest⟩
  | assign => simp at hl
  | loop =>
    obtain rfl := Lexeme.mark.inj (Option.some.inj hl)
    simp [Ty.ofMark?] at hty

theorem of_name (h : IsStmts ls) {x : String} (hl : ls.head? = some (.name x)) :
    ∃ value rest, ls = .name x :: .mark .assign :: (value ++ .mark .semicolon :: rest) ∧
      IsExpr value ∧ IsStmts rest := by
  obtain ⟨ss, rest, rfl, hs, hrest, hl⟩ := h.of_statement hl (by simp)
  cases hs with
  | declare | loop => simp at hl
  | @assign x' value hvalue =>
    obtain rfl := Lexeme.name.inj (Option.some.inj hl)
    exact ⟨value, rest, by simp, hvalue, hrest⟩

theorem of_while (h : IsStmts ls) (hl : ls.head? = some (.mark .while)) :
    ∃ cond body rest,
      ls = .mark .while :: (cond ++ .mark .braceL :: (body ++ .mark .braceR :: rest)) ∧
      IsExpr cond ∧ IsStmts body ∧ IsStmts rest := by
  obtain ⟨ss, rest, rfl, hs, hrest, hl⟩ := h.of_statement hl (by simp)
  cases hs with
  | declare hm =>
    obtain rfl := Lexeme.mark.inj (Option.some.inj hl)
    simp at hm
  | assign => simp at hl
  | @loop cond body hcond hbody => exact ⟨cond, body, rest, by simp, hcond, hbody, hrest⟩

end IsStmts

end WhileLang
