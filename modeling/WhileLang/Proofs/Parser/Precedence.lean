import WhileLang.Proofs.Parser.Readback

/-!
# `WhileLang/Proofs/Parser/Precedence.lean` — climbing finds the tree of the stratified grammar

A grammar can say with its nonterminals what binds how tightly, one for each class of operators
(`Stratified`). Its binary productions are **left recursive**, the prefix operators recurse at their
own stratum, and parentheses come back to the loosest one. No levels are compared and nothing is
read ahead.

The parser has one loop instead. That the loop finds the tree of the derivation is an induction on
the derivation. What has been derived is the left operand of all that follows at its stratum or
below, so the induction is about **any continuation of the loop** behind the derived lexemes
(`Climbs`), and a left-recursive production puts one more round in front of it.
-/

set_option autoImplicit false

namespace WhileLang

/-! ## The grammar -/

/-- The nonterminals, the loosest first. -/
inductive Stratum where
  | or
  | and
  | not
  | rel
  | add
  | mul
  | un
deriving DecidableEq, Repr

/-- The lexemes that a nonterminal derives, with the tree of the derivation. Chain productions and
parentheses leave no node in it. -/
inductive Stratified : Stratum → List Lexeme → Expr → Prop where
  | or {xs ys : List Lexeme} {l r : Expr} : Stratified .or xs l → Stratified .and ys r →
    Stratified .or (xs ++ .mark .or :: ys) (.binary .bare .or l r)
  | ofAnd {xs : List Lexeme} {e : Expr} : Stratified .and xs e → Stratified .or xs e
  | and {xs ys : List Lexeme} {l r : Expr} : Stratified .and xs l → Stratified .not ys r →
    Stratified .and (xs ++ .mark .and :: ys) (.binary .bare .and l r)
  | ofNot {xs : List Lexeme} {e : Expr} : Stratified .not xs e → Stratified .and xs e
  | not {xs : List Lexeme} {e : Expr} : Stratified .not xs e →
    Stratified .not (.mark .not :: xs) (.unary .bare .not e)
  | ofRel {xs : List Lexeme} {e : Expr} : Stratified .rel xs e → Stratified .not xs e
  | rel {op : BinaryOp} {xs ys : List Lexeme} {l r : Expr} :
    op ∈ [.eq, .ne, .lt, .le, .gt, .ge] → Stratified .rel xs l → Stratified .add ys r →
    Stratified .rel (xs ++ .mark op.mark :: ys) (.binary .bare op l r)
  | ofAdd {xs : List Lexeme} {e : Expr} : Stratified .add xs e → Stratified .rel xs e
  | add {op : BinaryOp} {xs ys : List Lexeme} {l r : Expr} :
    op ∈ [.add, .sub] → Stratified .add xs l → Stratified .mul ys r →
    Stratified .add (xs ++ .mark op.mark :: ys) (.binary .bare op l r)
  | ofMul {xs : List Lexeme} {e : Expr} : Stratified .mul xs e → Stratified .add xs e
  | mul {xs ys : List Lexeme} {l r : Expr} : Stratified .mul xs l → Stratified .un ys r →
    Stratified .mul (xs ++ .mark .mul :: ys) (.binary .bare .mul l r)
  | ofUn {xs : List Lexeme} {e : Expr} : Stratified .un xs e → Stratified .mul xs e
  | sign {op : UnaryOp} {xs : List Lexeme} {e : Expr} : op ∈ [.plus, .neg] →
    Stratified .un xs e → Stratified .un (.mark op.mark :: xs) (.unary .bare op e)
  | literal (v : Int64) : Stratified .un [.literal v] (.int .bare v)
  | name (x : String) : Stratified .un [.name x] (.var .bare ⟨x, default⟩)
  | true : Stratified .un [.mark .true] (.bool .bare true)
  | false : Stratified .un [.mark .false] (.bool .bare false)
  | parenthesis {xs : List Lexeme} {e : Expr} : Stratified .or xs e →
    Stratified .un (.mark .parenL :: xs ++ [.mark .parenR]) e

/-! ## Strata and levels -/

/-- The level that the operators of a stratum stand on. -/
def Stratum.level : Stratum → Level
  | .or => .or
  | .and => .and
  | .not => .not
  | .rel => .rel
  | .add => .add
  | .mul => .mul
  | .un => .sign

/-- If an operator is ahead, it does not bind more tightly than those of the level. -/
def AtMost (level : Level) (ls : List Lexeme) : Prop :=
  ∀ op : BinaryOp, ls.head? = some (.mark op.mark) → op.level.rank ≤ level.rank

theorem AtMost.of_operator {op : BinaryOp} {level : Level} (h : op.level.rank ≤ level.rank)
    (ls : List Lexeme) : AtMost level (.mark op.mark :: ls) := by
  intro op' hop
  obtain rfl := BinaryOp.mark_inj.1 (Lexeme.mark.inj (Option.some.inj hop))
  exact h

theorem AtMost.mono {level level' : Level} {ls : List Lexeme} (h : AtMost level ls)
    (hle : level.rank ≤ level'.rank) : AtMost level' ls :=
  fun op hop => (h op hop).trans hle

theorem NoOperator.atMost {ls : List Lexeme} (h : NoOperator ls) (level : Level) :
    AtMost level ls :=
  fun op hop => absurd hop (h op)

/-- The loop stops before what binds less tightly. -/
theorem AtMost.stop {level level' : Level} {ls : List Lexeme} (h : AtMost level ls)
    (hlt : level.rank < level'.rank) (e : Expr) : MoreAt level' e ls e ls :=
  .stop fun op hop => (h op hop).trans_lt hlt

/-- No binary operator stands on the level of `not`. -/
theorem AtMost.stop_not {ls : List Lexeme} (h : AtMost .not ls) (e : Expr) :
    MoreAt .not e ls e ls := by
  refine .stop fun op hop => Nat.lt_of_le_of_ne (h op hop) ?_
  cases op <;> simp [BinaryOp.level, Level.rank]

/-! ## The loop finds the tree -/

/-- The loop of any level up to the stratum can go on behind these lexemes, with the tree as the
left operand of what follows. -/
def Climbs (k : Stratum) (ls : List Lexeme) (t : Expr) : Prop :=
  ∀ level rest e rest', level.rank ≤ k.level.rank → AtMost k.level rest →
    MoreAt level t rest e rest' → ExprAt level (ls ++ rest) e rest'

namespace Climbs

variable {k k' : Stratum} {xs ys : List Lexeme} {l r e : Expr}

/-- Where nothing tighter is ahead, the loop of the stratum itself could go on as well. -/
theorem ofTighter (h : Climbs k' xs e) (hle : k.level.rank ≤ k'.level.rank) : Climbs k xs e := by
  intro level rest e' rest' hlevel hrest hmore
  exact h level rest e' rest' (hlevel.trans hle) (hrest.mono hle) hmore

/-- The left part is read up to the operator, which is one more round of the loop. -/
theorem binary (op : BinaryOp) (hl : Climbs k xs l) (hr : Climbs k' ys r)
    (hop : op.level = k.level) (hop' : op.rightLevel = k'.level) :
    Climbs k (xs ++ .mark op.mark :: ys) (.binary .bare op l r) := by
  intro level rest e' rest' hlevel hrest hmore
  have hlt : k.level.rank < k'.level.rank := by
    rw [← hop, ← hop', op.rank_rightLevel]
    exact Nat.lt_succ_self _
  have hright : ExprAt op.rightLevel (ys ++ rest) r rest := by
    rw [hop']
    exact hr _ _ _ _ le_rfl (hrest.mono hlt.le) (hrest.stop hlt r)
  rw [List.append_assoc, List.cons_append]
  refine hl _ _ _ _ hlevel (.of_operator (Nat.le_of_eq ?_) _) (.step ?_ hright hmore)
  · rw [hop]
  · rwa [hop]

/-- An operand leaves all that follows to the loop. -/
theorem operand (h : ∀ rest, OperandAt (xs ++ rest) e rest) : Climbs k xs e :=
  fun _ rest _ _ _ _ hmore => .ofOperand (h rest) hmore

/-- The operand of `not` is read at the level of `not`, where the loop stops before what follows. -/
theorem not (h : Climbs .not xs e) : Climbs .not (.mark .not :: xs) (.unary .bare .not e) := by
  intro level rest e' rest' _ hrest hmore
  have hinner : ExprAt UnaryOp.not.level (xs ++ rest) e rest :=
    h _ _ _ _ le_rfl hrest (hrest.stop_not e)
  exact .ofOperand (.unary hinner) hmore

/-- The operand of a sign ends before every binary operator. -/
theorem sign {op : UnaryOp} (h : Climbs .un xs e) (hop : op.level = .sign) :
    Climbs .un (.mark op.mark :: xs) (.unary .bare op e) := by
  intro level rest e' rest' _ hrest hmore
  have hinner : ExprAt op.level (xs ++ rest) e rest := by
    rw [hop]
    exact h _ _ _ _ le_rfl hrest (.stop fun b _ => b.rank_level_lt_sign)
  exact .ofOperand (.unary hinner) hmore

theorem parenthesis (h : Climbs .or xs e) :
    Climbs k (.mark .parenL :: xs ++ [.mark .parenR]) e := by
  refine operand fun rest => ?_
  have hparen : NoOperator (.mark .parenR :: rest) := .mark rfl rest
  have hinner := h _ _ _ _ (Nat.zero_le _) (hparen.atMost _) (hparen.stop .lowest e)
  rw [List.cons_append, List.cons_append, List.append_assoc]
  exact .parenthesis hinner

end Climbs

theorem Stratified.climbs {k : Stratum} {ls : List Lexeme} {t : Expr} (h : Stratified k ls t) :
    Climbs k ls t := by
  induction h with
  | or _ _ ihl ihr => exact .binary .or ihl ihr rfl rfl
  | ofAnd _ ih => exact ih.ofTighter (by decide)
  | and _ _ ihl ihr => exact .binary .and ihl ihr rfl rfl
  | ofNot _ ih => exact ih.ofTighter (by decide)
  | not _ ih => exact ih.not
  | ofRel _ ih => exact ih.ofTighter (by decide)
  | @rel op _ _ _ _ hop _ _ ihl ihr =>
    have hlevels : op.level = .rel ∧ op.rightLevel = .add := by
      cases op <;> simp at hop <;> exact ⟨rfl, rfl⟩
    exact .binary op ihl ihr hlevels.1 hlevels.2
  | ofAdd _ ih => exact ih.ofTighter (by decide)
  | @add op _ _ _ _ hop _ _ ihl ihr =>
    have hlevels : op.level = .add ∧ op.rightLevel = .mul := by
      cases op <;> simp at hop <;> exact ⟨rfl, rfl⟩
    exact .binary op ihl ihr hlevels.1 hlevels.2
  | ofMul _ ih => exact ih.ofTighter (by decide)
  | mul _ _ ihl ihr => exact .binary .mul ihl ihr rfl rfl
  | ofUn _ ih => exact ih.ofTighter (by decide)
  | @sign op _ _ hop _ ih =>
    have hlevel : op.level = .sign := by
      cases op <;> simp at hop <;> rfl
    exact ih.sign hlevel
  | literal v => exact .operand fun _ => .int
  | name x => exact .operand fun _ => .var
  | true => exact .operand fun _ => .bool (b := Bool.true)
  | false => exact .operand fun _ => .bool (b := Bool.false)
  | parenthesis _ ih => exact ih.parenthesis

/-- **A derived expression is read as the tree of its derivation**, when no operator follows. Its
lexemes are taken, and nothing else is done but giving numbers: the log is as if the tokens had been
taken one by one. -/
theorem ParseM.expr_of_stratified {ls rest : List Lexeme} {t : Expr} (hd : Stratified .or ls t)
    (hrest : NoOperator rest) {s : ParseState} (he : s.Ends) (hin : s.input = ls ++ rest)
    {bound : Nat} (hb : s.input.length < bound) (context : ParseContext) :
    let r := (expr bound context).run s
    r.1.bare = t ∧ r.2.input = rest ∧
      r.2.unnumbered = ParseState.advance^[ls.length] s.unnumbered ∧
      (s.Clean → r.2.log = s.log) := by
  have hread : ExprAt .lowest s.input t rest := by
    rw [hin]
    exact hd.climbs _ _ _ _ (Nat.zero_le _) (hrest.atMost _) (hrest.stop .lowest t)
  obtain ⟨-, hmet⟩ := ParseState.exprMet_cases.expr bound context he hb
  obtain ⟨htree, harrives⟩ := hmet t rest he hread
  obtain ⟨n, hn, htaking⟩ := harrives.taking
  have hlen : n = ls.length := by
    rw [hin, List.length_append] at hn
    omega
  exact ⟨htree, harrives.input, hlen ▸ htaking, fun hc => (harrives.clean hc).2⟩

/-- A negation of a comparison with a difference, up to the semicolon. -/
theorem ParseM.expr_of_stratified_negation :
    let s := ParseState.ofSource ⟨0⟩ (.ofString "not x < 2 - 1 - y;")
    let ls : List Lexeme := [.mark .not, .name "x", .mark .lt, .literal 2, .mark .sub, .literal 1,
      .mark .sub, .name "y"]
    let t : Expr := .unary .bare .not (.binary .bare .lt (.var .bare ⟨"x", default⟩)
      (.binary .bare .sub (.binary .bare .sub (.int .bare 2) (.int .bare 1))
        (.var .bare ⟨"y", default⟩)))
    let r := (expr 20 .result).run s
    (Stratified .or ls t ∧ NoOperator [.mark .semicolon] ∧ s.Ends ∧
      s.input = ls ++ [.mark .semicolon] ∧ s.input.length < 20) ∧
    r.1.bare = t ∧ r.2.input = [.mark .semicolon] ∧
      r.2.unnumbered = ParseState.advance^[ls.length] s.unnumbered ∧
      (s.Clean → r.2.log = s.log) := by
  have hdiff : Stratified .add ([.literal 2] ++ .mark BinaryOp.sub.mark :: [.literal 1]) _ :=
    .add (by decide) (.ofMul (.ofUn (.literal 2))) (.ofUn (.literal 1))
  have hright : Stratified .add (_ ++ .mark BinaryOp.sub.mark :: [.name "y"]) _ :=
    .add (by decide) hdiff (.ofUn (.name "y"))
  have hcomparison : Stratified .rel ([.name "x"] ++ .mark BinaryOp.lt.mark :: _) _ :=
    .rel (by decide) (.ofAdd (.ofMul (.ofUn (.name "x")))) hright
  have hd := Stratified.ofAnd (.ofNot (.not (.ofRel hcomparison)))
  have hrest : NoOperator [.mark .semicolon] := .mark rfl []
  have he := ParseState.ends_ofSource ⟨0⟩ (.ofString "not x < 2 - 1 - y;")
  have hin : (ParseState.ofSource ⟨0⟩ (.ofString "not x < 2 - 1 - y;")).input =
      [.mark .not, .name "x", .mark .lt, .literal 2, .mark .sub, .literal 1, .mark .sub,
        .name "y"] ++ [.mark .semicolon] := by
    decide +kernel
  have hb : (ParseState.ofSource ⟨0⟩ (.ofString "not x < 2 - 1 - y;")).input.length < 20 := by
    decide +kernel
  exact ⟨⟨hd, hrest, he, hin, hb⟩, expr_of_stratified hd hrest he hin hb .result⟩

end WhileLang
