import WhileLang.Proofs.Python.Emitted
import WhileLang.Proofs.Python.Reader
import WhileLang.Proofs.Typing.WellTyped

/-!
# `WhileLang/Proofs/Python/Parsed.lean` — a program compiled to Python is read as written

The tokens of a well-typed program are read as the terms and statements listed here: **those of the
source, operator by operator and statement by statement**.

Types are needed for it. All operands have parentheses or are single constants and names, except
that an operator before an operand stands outside its parentheses, and `not` binds less tightly than
a comparison: `not (x) == y` would not be read as it was written. But `not` makes a truth value, and
truth values are operands of `and`, `or` and `not` only, which all bind less tightly than `not` or
as tightly (`Ty.pyLevel`).
-/

set_option autoImplicit false

namespace WhileLang

/-! ## The program that is read -/

def Expr.pyTerm (ann : Annotations) : Expr → Python.Term
  | .binary _ op l r => .binary op (l.pyTerm ann) (r.pyTerm ann)
  | .unary _ op e => .unary op (e.pyTerm ann)
  | .bool _ b => .truth b
  | .int _ v =>
    if v < 0 then .unary .neg (.constant v.toInt.natAbs) else .constant v.toInt.natAbs
  | .var n s => .var (ann.targetName n.id s.name)
  | .hole _ => .truth false

/-- The statements of a block, and then `last`. -/
def Block.pyCode (ann : Annotations) (last : Python.Code) : Block → Python.Code
  | .done => last
  | .declare d rest =>
    .assign (Target.varName d.symbol.name d.decl) (d.init.pyTerm ann) (rest.pyCode ann last)
  | .assign a rest =>
    .assign (ann.targetName a.node.id a.symbol.name) (a.value.pyTerm ann) (rest.pyCode ann last)
  | .loop w body rest =>
    .loop (w.cond.pyTerm ann) (if body.isEmpty then .pass .done else body.pyCode ann .done)
      (rest.pyCode ann last)

/-- What is printed for a result of type `ty`. -/
def pyPrinted (ty : Ty) (result : Python.Term) : Python.Term :=
  if ty = .bool then
    .choice result (.string ['t', 'r', 'u', 'e']) (.string ['f', 'a', 'l', 's', 'e'])
  else result

def Program.pyCode (ann : Annotations) (p : Program) : Python.Code :=
  p.body.pyCode ann (.print (pyPrinted (ann.tyOf p.result) (p.result.pyTerm ann)) .done)

/-- The level on which the outermost operator of an expression of this type may stand, when it has
no parentheses around it. -/
def Ty.pyLevel : Ty → Nat
  | .bool => 3
  | .int | .unknown => 7

end WhileLang

namespace WhileLang.Python

/-! ## The reader, step by step -/

variable {d least : Nat} {ts ts' : List Token} {e : Term}

def Token.binary? : Token → Option BinaryOp
  | .sign s => s.binary?
  | _ => none

/-- An operator between operands comes next only from a level below. -/
def Below (least : Nat) (ts : List Token) : Prop :=
  ∀ t op, ts.head? = some t → t.binary? = some op → level op < least

theorem Below.cons {t : Token} (h : ∀ op, t.binary? = some op → level op < least)
    (ts : List Token) : Below least (t :: ts) := by
  rintro t' op ht hop
  obtain rfl := Option.some.inj ht
  exact h op hop

theorem Below.other {t : Token} (h : t.binary? = none) (ts : List Token) :
    Below least (t :: ts) :=
  .cons (fun op hop => by simp [h] at hop) ts

theorem readMore_of_below (h : Below least ts) (lhs : Term) (last : Option Term) :
    readMore (d + 1) least lhs last ts = some (lhs, ts) := by
  cases ts with
  | nil => rfl
  | cons t ts =>
    cases t with
    | sign s =>
      rw [readMore]
      cases hs : s.binary? with
      | none => rfl
      | some op => exact if_pos (h _ op rfl hs)
    | _ => rfl

theorem readTerm_of_operand (he : readOperand (d + 1) least ts = some (e, ts'))
    (h : Below least ts') : readTerm (d + 2) least ts = some (e, ts') := by
  rw [readTerm, he]
  exact readMore_of_below h e none

/-- Two operands with an operator between them, and nothing that goes on. -/
theorem readTerm_binary {op : BinaryOp} {l r : Term} {mid : List Token}
    (hl : readOperand (d + 3) 1 ts = some (l, .sign (.op op) :: mid))
    (hr : readOperand (d + 1) (level op + 1) mid = some (r, ts')) (h : ∀ n, Below n ts') :
    readTerm (d + 4) 1 ts = some (.binary op l r, ts') := by
  have hrhs : readTerm (d + 2) (level op + 1) mid = some (r, ts') := readTerm_of_operand hr (h _)
  have hle : ¬level op < 1 := by cases op <;> decide
  rw [readTerm, hl]
  show readMore (d + 3) 1 l none (.sign (.op op) :: mid) = _
  rw [readMore]
  simp only [Sign.binary?, hle, if_false, hrhs]
  exact readMore_of_below (h 1) _ _

theorem readExpr_of_term (he : readTerm d 1 ts = some (e, ts'))
    (h : ts'.head? ≠ some (.keyword .if)) : readExpr (d + 1) ts = some (e, ts') := by
  rw [readExpr, he]
  cases ts' with
  | nil => rfl
  | cons t ts' =>
    cases t with
    | keyword k => cases k <;> first | exact absurd rfl h | rfl
    | _ => rfl

theorem readExpr_choice {cond yes no : Term} {mid mid' : List Token}
    (hyes : readTerm d 1 ts = some (yes, .keyword .if :: mid))
    (hcond : readTerm d 1 mid = some (cond, .keyword .else :: mid'))
    (hno : readExpr d mid' = some (no, ts')) :
    readExpr (d + 1) ts = some (.choice cond yes no, ts') := by
  rw [readExpr, hyes]
  simp [hcond, expect, hno]

theorem readOperand_parenthesis (he : readTerm d 1 ts = some (e, .sign .parenR :: ts')) :
    readOperand (d + 2) least (.sign .parenL :: ts) = some (e, ts') := by
  have hexpr := readExpr_of_term he (by simp)
  simp [readOperand, hexpr, expect]

theorem readOperand_unary (op : UnaryOp) (hl : least ≤ unaryLevel op)
    (he : readTerm d (unaryLevel op) ts = some (e, ts')) :
    readOperand (d + 1) least (.sign op.pySign :: ts) = some (.unary op e, ts') := by
  have hl := Nat.not_lt_of_le hl
  cases op <;> simp [readOperand, UnaryOp.pySign, Sign.unary?, he, hl]

end WhileLang.Python

namespace WhileLang

/-! ## Terms -/

/-- An operator stands below the level of its operands, and its second operand may stand one level
above it. -/
theorem BinaryOp.level_lt_pyLevel (op : BinaryOp) : Python.level op < op.operand.pyLevel := by
  cases op <;> decide

theorem UnaryOp.unaryLevel_eq (op : UnaryOp) : Python.unaryLevel op = op.operand.pyLevel := by
  cases op <;> rfl

theorem Ty.one_le_pyLevel (ty : Ty) : 1 ≤ ty.pyLevel := by
  cases ty <;> decide

namespace Expr

variable {ann : Annotations} {Γ : Context} {e : Expr} {ty : Ty}

/-- **The tokens of a well-typed expression are an operand** on every level up to that of its
type. -/
theorem readOperand_pyTokens (h : e.HasTy Γ ty) {depth least : Nat}
    (hd : 2 * (e.pyTokens ann).length ≤ depth) (hl : least ≤ ty.pyLevel) {rest : List Python.Token}
    (hrest : Python.Below ty.pyLevel rest) :
    Python.readOperand depth least (e.pyTokens ann ++ rest) = some (e.pyTerm ann, rest) := by
  induction h generalizing depth least rest with
  | @binary n op l r _ _ ihl ihr =>
    simp only [pyTokens, List.length_cons, List.length_append, List.length_nil] at hd
    obtain ⟨d, rfl⟩ : ∃ d, depth = d + 6 := Nat.exists_eq_add_of_le' (by omega)
    have hop := op.level_lt_pyLevel
    have hclose : ∀ n, Python.Below n (.sign .parenR :: rest) := fun _ => .other rfl rest
    have hr : Python.readOperand (d + 1) (Python.level op + 1)
        (r.pyTokens ann ++ .sign .parenR :: rest) = _ := ihr (by omega) hop (hclose _)
    have hbelow : Python.Below op.operand.pyLevel
        (.sign (.op op) :: (r.pyTokens ann ++ .sign .parenR :: rest)) := by
      apply Python.Below.cons
      intro op' hop'
      obtain rfl := Option.some.inj hop'
      exact hop
    have hl : Python.readOperand (d + 3) 1 (l.pyTokens ann ++ .sign (.op op) ::
        (r.pyTokens ann ++ .sign .parenR :: rest)) = _ :=
      ihl (by omega) (Ty.one_le_pyLevel _) hbelow
    have hall : Python.readOperand (d + 6) least (.sign .parenL :: _) = _ :=
      Python.readOperand_parenthesis (Python.readTerm_binary hl hr hclose)
    simpa [pyTokens, pyTerm] using hall
  | @unary n op e _ ih =>
    simp only [pyTokens, List.length_cons, List.length_append, List.length_nil] at hd
    obtain ⟨d, rfl⟩ : ∃ d, depth = d + 6 := Nat.exists_eq_add_of_le' (by omega)
    have he : Python.readOperand (d + 1) 1 (e.pyTokens ann ++ .sign .parenR :: rest) = _ :=
      ih (by omega) (Ty.one_le_pyLevel _) (.other rfl rest)
    have hinner : Python.readOperand (d + 4) (Python.unaryLevel op) (.sign .parenL :: _) = _ :=
      Python.readOperand_parenthesis (Python.readTerm_of_operand he (.other rfl rest))
    rw [← op.unaryLevel_eq] at hl hrest
    have hall := Python.readOperand_unary op hl (Python.readTerm_of_operand hinner hrest)
    simpa [pyTokens, pyTerm] using hall
  | @bool n b =>
    obtain ⟨d, rfl⟩ := Nat.exists_eq_add_of_le' hd
    cases b <;> rfl
  | @int n v =>
    rw [pyTokens] at hd ⊢
    rw [pyTerm]
    split
    · rename_i hneg
      rw [if_pos hneg] at hd
      obtain ⟨d, rfl⟩ := Nat.exists_eq_add_of_le' hd
      have hdigits : Python.readOperand (d + 1) 7 (.number v.toInt.natAbs :: rest) = _ := rfl
      exact Python.readOperand_unary .neg hl (Python.readTerm_of_operand hdigits hrest)
    · rename_i hneg
      rw [if_neg hneg] at hd
      obtain ⟨d, rfl⟩ := Nat.exists_eq_add_of_le' hd
      rfl
  | @var n s ty =>
    obtain ⟨d, rfl⟩ := Nat.exists_eq_add_of_le' hd
    rfl

/-- An expression is taken whole when neither an operator nor `if` comes next. -/
theorem readWhole_pyTokens (ann : Annotations) (h : e.HasTy Γ ty) {t : Python.Token}
    (ht : t.binary? = none) (hif : t ≠ .keyword .if) (rest : List Python.Token) :
    Python.readWhole (e.pyTokens ann ++ t :: rest) = some (e.pyTerm ann, t :: rest) := by
  have hd : 2 * (e.pyTokens ann).length ≤ 3 * (e.pyTokens ann ++ t :: rest).length + 1 := by
    rw [List.length_append]
    omega
  have hterm := Python.readTerm_of_operand
    (readOperand_pyTokens h hd ty.one_le_pyLevel (.other ht rest)) (.other ht rest)
  exact Python.readExpr_of_term hterm (by simpa using hif)

/-- What is printed is an expression, or one of two strings that an expression chooses. -/
theorem readWhole_pyPrintedTokens (ann : Annotations) (h : e.HasTy Γ ty)
    (rest : List Python.Token) :
    Python.readWhole (pyPrintedTokens ty (e.pyTokens ann) ++ .sign .parenR :: rest) =
      some (pyPrinted ty (e.pyTerm ann), .sign .parenR :: rest) := by
  unfold pyPrintedTokens pyPrinted
  split
  · obtain ⟨k, hk, hlen⟩ : ∃ k, 3 * (Python.Token.string ['t', 'r', 'u', 'e'] :: .keyword .if ::
        (e.pyTokens ann ++ [.keyword .else, .string ['f', 'a', 'l', 's', 'e']]) ++
          .sign .parenR :: rest).length + 3 = k + 5 ∧ 2 * (e.pyTokens ann).length ≤ k + 3 :=
      ⟨3 * (e.pyTokens ann).length + 3 * rest.length + 13, by
        simp only [List.length_cons, List.length_append, List.length_nil]; omega, by omega⟩
    let last : List Python.Token := .string ['f', 'a', 'l', 's', 'e'] :: .sign .parenR :: rest
    have helse : ∀ n, Python.Below n (.keyword .else :: last) := fun _ => .other rfl last
    have hcond := Python.readTerm_of_operand
      (readOperand_pyTokens h hlen ty.one_le_pyLevel (helse _)) (helse 1)
    have hyes : Python.readTerm (k + 4) 1 (.string ['t', 'r', 'u', 'e'] :: .keyword .if ::
        (e.pyTokens ann ++ .keyword .else :: last)) = _ :=
      Python.readTerm_of_operand rfl (.other rfl _)
    have hno : Python.readExpr (k + 4) last = _ :=
      Python.readExpr_of_term (Python.readTerm_of_operand rfl (.other rfl rest)) (by simp)
    have hall := Python.readExpr_choice hyes hcond hno
    rw [Python.readWhole, hk]
    simpa using hall
  · exact readWhole_pyTokens ann h rfl (by simp) rest

end Expr

/-! ## Statements -/

/-- With any depth that is enough, the tokens are read as these statements. -/
def Python.ReadsCode (ts : List Python.Token) (c : Python.Code) (ts' : List Python.Token) : Prop :=
  ∀ depth, ts.length < depth → Python.readCode depth ts = some (c, ts')

theorem Python.ReadsCode.assign (ann : Annotations) {Γ : Context} {e : Expr} {ty : Ty}
    (h : e.HasTy Γ ty) (x : String) {ts ts' : List Python.Token} {c : Python.Code}
    (hrest : ReadsCode ts c ts') :
    ReadsCode (.name x :: .sign .assign :: (e.pyTokens ann ++ .newline :: ts))
      (.assign x (e.pyTerm ann) c) ts' := by
  intro depth hd
  simp only [List.length_cons, List.length_append] at hd
  obtain ⟨depth, rfl⟩ : ∃ k, depth = k + 1 := Nat.exists_eq_add_of_le' (by omega)
  have hvalue := e.readWhole_pyTokens ann h (t := .newline) rfl (by simp) ts
  have htail := hrest depth (by omega)
  simp [readCode, expect, hvalue, htail]

/-- A body that is empty is read as `pass`. -/
theorem Python.ReadsCode.body (ann : Annotations) {b : Block} {ts ts' : List Python.Token}
    (h : ReadsCode (b.pyTokens ann ++ ts) (b.pyCode ann .done) ts') :
    ReadsCode ((if b.isEmpty then [.keyword .pass, .newline] else []) ++ b.pyTokens ann ++ ts)
      (if b.isEmpty then .pass .done else b.pyCode ann .done) ts' := by
  cases b with
  | done =>
    intro depth hd
    obtain ⟨depth, rfl⟩ : ∃ k, depth = k + 1 := Nat.exists_eq_add_of_le' (by omega)
    have hrest := h depth (by
      simp only [Block.isEmpty, if_true, List.length_append, List.length_cons] at hd ⊢
      omega)
    have hrest : readCode depth ts = some (.done, ts') := hrest
    simp [Block.isEmpty, Block.pyTokens, readCode, expect, hrest]
  | declare | assign | loop => exact h

theorem Block.readCode_pyTokens (ann : Annotations) {Γ Γ' : Context} {b : Block}
    (h : b.WellTyped Γ Γ') {rest rest' : List Python.Token} {last : Python.Code}
    (hlast : Python.ReadsCode rest last rest') :
    Python.ReadsCode (b.pyTokens ann ++ rest) (b.pyCode ann last) rest' := by
  induction h generalizing rest rest' last with
  | done => exact hlast
  | @declare _ _ d _ hinit _ _ ih =>
    have hall := Python.ReadsCode.assign ann hinit (Target.varName d.symbol.name d.decl)
      (ih hlast)
    simpa [pyTokens, pyCode] using hall
  | @assign _ _ a _ _ _ hvalue _ ih =>
    have hall := Python.ReadsCode.assign ann hvalue (ann.targetName a.node.id a.symbol.name)
      (ih hlast)
    simpa [pyTokens, pyCode] using hall
  | @loop _ _ _ w body tail hcond _ _ ihb ihr =>
    intro depth hd
    have htail := ihr hlast
    -- the body ends with its block, whatever comes after that
    have hstop : Python.ReadsCode (.dedent :: (tail.pyTokens ann ++ rest)) .done
        (.dedent :: (tail.pyTokens ann ++ rest)) := by
      intro depth hd
      obtain ⟨depth, rfl⟩ : ∃ k, depth = k + 1 := Nat.exists_eq_add_of_le' (by omega)
      rfl
    have hbody := Python.ReadsCode.body ann (ihb hstop)
    simp only [pyTokens, List.cons_append, List.append_assoc, List.length_cons,
      List.length_append] at hd
    obtain ⟨depth, rfl⟩ : ∃ k, depth = k + 1 := Nat.exists_eq_add_of_le' (by omega)
    have htail := htail depth (by rw [List.length_append]; omega)
    have hbody := hbody depth (by
      simp only [List.length_append, List.length_cons]
      omega)
    have hcond := w.cond.readWhole_pyTokens ann hcond (t := .sign .colon) rfl (by simp)
      (.newline :: .indent :: ((if body.isEmpty then [.keyword .pass, .newline] else []) ++
        body.pyTokens ann ++ .dedent :: (tail.pyTokens ann ++ rest)))
    simp only [List.append_assoc] at hbody hcond
    simp [pyTokens, pyCode, Python.readCode, Python.expect, hcond, hbody, htail]

/-! ## Programs -/

theorem Python.readCode_pyPrintTokens (ann : Annotations) {Γ : Context} {e : Expr} {ty : Ty}
    (h : e.HasTy Γ ty) :
    ReadsCode (pyPrintTokens ty (e.pyTokens ann) ++ [.newline])
      (.print (pyPrinted ty (e.pyTerm ann)) .done) [] := by
  intro depth hd
  simp only [pyPrintTokens, List.cons_append, List.length_cons] at hd
  obtain ⟨depth, rfl⟩ : ∃ k, depth = k + 2 := Nat.exists_eq_add_of_le' (by omega)
  have hprinted := e.readWhole_pyPrintedTokens ann h [.newline]
  simp [pyPrintTokens, readCode, expect, hprinted]

/-- **A text with the tokens of a well-typed program is read as that program.** -/
theorem Program.ofText_pyTokens {p : Program} {ann : Annotations} {Γ₀ Γ : Context}
    (hb : p.body.WellTyped Γ₀ Γ) (hr : p.result.HasTy Γ (ann.tyOf p.result)) {text : String}
    (h : Python.blockTokens text.toList = some (p.pyTokens ann)) :
    Python.Code.ofText text = some (p.pyCode ann) := by
  have hcode := Block.readCode_pyTokens ann hb (Python.readCode_pyPrintTokens ann hr) _
    (Nat.lt_succ_self _)
  rw [Python.Code.ofText, h]
  simp only [Option.bind_eq_bind, Option.bind_some, pyTokens]
  rw [hcode]
  rfl

end WhileLang
