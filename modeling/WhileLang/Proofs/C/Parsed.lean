import WhileLang.Proofs.C.Emitted
import WhileLang.Proofs.C.Reader

/-!
# `WhileLang/Proofs/C/Parsed.lean` — a program compiled to C is read as written

The tokens of a compiled program are read as the terms and statements listed here: **those of the
source, operator by operator and statement by statement**. Operands have parentheses or are single
constants and names, so how tightly an operator binds is never asked.
-/

set_option autoImplicit false

namespace WhileLang

/-! ## The program that is read -/

/-- The term of an integer. -/
def intTerm (v : Int64) : C.Term :=
  if v = Int64.minValue then
    .binary .sub (.unary .neg (.constant .longLong 9223372036854775807)) (.constant .int 1)
  else if v < 0 then .unary .neg (.constant .int v.toInt.natAbs)
  else .constant .int v.toInt.natAbs

def Expr.cTerm (ann : Annotations) : Expr → C.Term
  | .binary _ op l r => .binary op (l.cTerm ann) (r.cTerm ann)
  | .unary _ op e => .unary op (e.cTerm ann)
  | .bool _ b => .constant .int (if b then 1 else 0)
  | .int _ v => intTerm v
  | .var n s => .var (ann.targetName n.id s.name)
  | .hole _ => .constant .int 0

def Ty.cTy : Ty → C.Ty
  | .int => .longLong
  | .bool | .unknown => .bool

/-- The statements of a block, and then `last`. -/
def Block.cCode (ann : Annotations) (last : C.Code) : Block → C.Code
  | .done => last
  | .declare d rest =>
    .declare d.ty.cTy (Target.varName d.symbol.name d.decl) (d.init.cTerm ann) (rest.cCode ann last)
  | .assign a rest =>
    .assign (ann.targetName a.node.id a.symbol.name) (a.value.cTerm ann) (rest.cCode ann last)
  | .loop w body rest => .loop (w.cond.cTerm ann) (body.cCode ann .done) (rest.cCode ann last)

/-- How a result of type `ty` is printed. -/
def cPrinted (ty : Ty) (result : C.Term) : C.Printed :=
  if ty = .bool then .choice result ['t', 'r', 'u', 'e', '\n'] ['f', 'a', 'l', 's', 'e', '\n']
  else .format ['%', 'l', 'l', 'd', '\n'] [.cast .longLong result]

def Program.cMain (ann : Annotations) (p : Program) : C.Main :=
  ⟨p.body.cCode ann (.print (cPrinted (ann.tyOf p.result) (p.result.cTerm ann)) .done),
    .constant .int 0⟩

end WhileLang

namespace WhileLang.C

/-! ## The reader, step by step -/

variable {d least : Nat} {ts ts' : List Token} {e : Term}

/-- No operator comes next that stands between operands. -/
def NoBinary (ts : List Token) : Prop :=
  ∀ s, ts.head? = some (.sign s) → s.binary? = none

theorem NoBinary.sign {s : Sign} (hs : s.binary? = none) (ts : List Token) :
    NoBinary (.sign s :: ts) := by
  intro s' h
  obtain rfl := Token.sign.inj (Option.some.inj h)
  exact hs

theorem readMore_of_noBinary (h : NoBinary ts) (lhs : Term) :
    readMore (d + 1) least lhs ts = some (lhs, ts) := by
  cases ts with
  | nil => rfl
  | cons t ts =>
    cases t with
    | sign s => rw [readMore, h s rfl]
    | _ => rfl

theorem readTerm_of_operand (he : readOperand (d + 1) ts = some (e, ts')) (h : NoBinary ts') :
    readTerm (d + 2) least ts = some (e, ts') := by
  rw [readTerm, he]
  exact readMore_of_noBinary h e

/-- Two operands with an operator between them, and nothing that goes on. -/
theorem readTerm_binary {op : BinaryOp} {l r : Term} {mid : List Token}
    (hl : readOperand (d + 3) ts = some (l, .sign (.op op) :: mid))
    (hr : readOperand (d + 1) mid = some (r, ts')) (h : NoBinary ts') :
    readTerm (d + 4) 0 ts = some (.binary op l r, ts') := by
  rw [readTerm, hl]
  show readMore (d + 3) 0 l (.sign (.op op) :: mid) = _
  rw [readMore]
  have hrhs : readTerm (d + 2) (level op + 1) mid = some (r, ts') := readTerm_of_operand hr h
  simp only [Sign.binary?, Nat.not_lt_zero, if_false, hrhs]
  exact readMore_of_noBinary h _

theorem readOperand_parenthesis (hty : readTy ts = none)
    (he : readTerm d 0 ts = some (e, .sign .parenR :: ts')) :
    readOperand (d + 1) (.sign .parenL :: ts) = some (e, ts') := by
  rw [readOperand, hty]
  simp [he, expect]

theorem readOperand_cast (he : readOperand d ts = some (e, ts')) :
    readOperand (d + 1) (.sign .parenL :: .keyword .long :: .keyword .long :: .sign .parenR :: ts) =
      some (.cast .longLong e, ts') := by
  simp [readOperand, readTy, expect, he]

theorem readOperand_unary (op : UnaryOp) (he : readOperand d ts = some (e, ts')) :
    readOperand (d + 1) (.sign op.cSign :: ts) = some (.unary op e, ts') := by
  cases op <;> simp [readOperand, UnaryOp.cSign, Sign.unary?, he]

end WhileLang.C

namespace WhileLang

/-! ## Terms -/

namespace Expr

variable {ann : Annotations} {e : Expr}

/-- No term begins like a cast. -/
theorem readTy_cTokens (hw : e.Whole) (rest : List C.Token) :
    C.readTy (e.cTokens ann ++ rest) = none := by
  cases e with
  | int n v =>
    rw [cTokens, intTokens]
    split
    · rfl
    · split <;> rfl
  | bool n b => cases b <;> rfl
  | hole n => exact hw.elim
  | _ => rfl

theorem readOperand_intTokens (v : Int64) {depth : Nat} (hd : 2 * (intTokens v).length ≤ depth)
    (rest : List C.Token) :
    C.readOperand depth (intTokens v ++ rest) = some (intTerm v, rest) := by
  unfold intTokens intTerm at *
  split
  · rename_i hv
    rw [if_pos hv] at hd
    obtain ⟨d, rfl⟩ := Nat.exists_eq_add_of_le' hd
    rfl
  · rename_i hv
    rw [if_neg hv] at hd
    split
    · rename_i hneg
      rw [if_pos hneg] at hd
      obtain ⟨d, rfl⟩ := Nat.exists_eq_add_of_le' hd
      rfl
    · rename_i hneg
      rw [if_neg hneg] at hd
      obtain ⟨d, rfl⟩ := Nat.exists_eq_add_of_le' hd
      rfl

/-- The tokens of an expression are an operand, whatever comes after them. -/
theorem readOperand_cTokens (hw : e.Whole) {depth : Nat}
    (hd : 2 * (e.cTokens ann).length ≤ depth) (rest : List C.Token) :
    C.readOperand depth (e.cTokens ann ++ rest) = some (e.cTerm ann, rest) := by
  induction e generalizing depth rest with
  | binary n op l r ihl ihr =>
    simp only [cTokens, List.length_cons, List.length_append, List.length_nil] at hd
    obtain ⟨d, rfl⟩ : ∃ d, depth = d + 5 := Nat.exists_eq_add_of_le' (by omega)
    -- each parenthesis is a token, and pays for the levels down to the operands inside
    have hr : C.readOperand (d + 1) (r.cTokens ann ++ .sign .parenR :: rest) = _ :=
      ihr hw.2 (by omega) _
    have hl : C.readOperand (d + 3) (l.cTokens ann ++ .sign (.op op) ::
        (r.cTokens ann ++ .sign .parenR :: rest)) = _ := ihl hw.1 (by omega) _
    have hterm := C.readTerm_binary hl hr (.sign rfl rest)
    have hall := C.readOperand_parenthesis (readTy_cTokens hw.1 _) hterm
    simpa [cTokens, cTerm] using hall
  | unary n op e ih =>
    simp only [cTokens, List.length_cons, List.length_append, List.length_nil] at hd
    obtain ⟨d, rfl⟩ : ∃ d, depth = d + 4 := Nat.exists_eq_add_of_le' (by omega)
    have hwe : e.Whole := hw
    have he : C.readOperand (d + 1) (e.cTokens ann ++ .sign .parenR :: rest) = _ :=
      ih hwe (by omega) _
    have hterm : C.readTerm (d + 2) 0 _ = _ := C.readTerm_of_operand he (.sign rfl rest)
    have hall := C.readOperand_unary op
      (C.readOperand_parenthesis (readTy_cTokens hwe _) hterm)
    simpa [cTokens, cTerm] using hall
  | bool n b =>
    obtain ⟨d, rfl⟩ := Nat.exists_eq_add_of_le' hd
    cases b <;> rfl
  | int n v => exact readOperand_intTokens v hd rest
  | var n s =>
    obtain ⟨d, rfl⟩ := Nat.exists_eq_add_of_le' hd
    rfl
  | hole n => exact hw.elim

theorem readWhole_cTokens (ann : Annotations) (hw : e.Whole) {rest : List C.Token}
    (h : C.NoBinary rest) : C.readWhole (e.cTokens ann ++ rest) = some (e.cTerm ann, rest) := by
  have hd : 2 * (e.cTokens ann).length ≤ 2 * (e.cTokens ann ++ rest).length + 1 := by
    rw [List.length_append]
    omega
  exact C.readTerm_of_operand (readOperand_cTokens hw hd rest) h

end Expr

/-! ## Statements -/

/-- With any depth that is enough, the tokens are read as these statements. -/
def C.ReadsCode (ts : List C.Token) (c : C.Code) (ts' : List C.Token) : Prop :=
  ∀ depth, ts.length ≤ depth → C.readCode depth ts = some (c, ts')

theorem C.readAssigned_cTokens (ann : Annotations) {e : Expr} (hw : e.Whole) (x : String)
    (rest : List C.Token) :
    C.readAssigned (.name x :: .sign .assign :: (e.cTokens ann ++ .sign .semicolon :: rest)) =
      some (x, e.cTerm ann, rest) := by
  simp [readAssigned, Expr.readWhole_cTokens ann hw (.sign (s := .semicolon) rfl rest), expect]

theorem Ty.readTy_cTokens (t : Ty) (x : String) (rest : List C.Token) :
    C.readTy (t.cTokens ++ .name x :: rest) = some (t.cTy, .name x :: rest) := by
  cases t <;> rfl

theorem Block.readCode_cTokens (ann : Annotations) {b : Block} (hw : b.Whole)
    {rest rest' : List C.Token} {last : C.Code} (h : C.ReadsCode rest last rest') :
    C.ReadsCode (b.cTokens ann ++ rest) (b.cCode ann last) rest' := by
  induction b generalizing rest rest' last with
  | done => exact h
  | declare d tail ih =>
    intro depth hd
    obtain ⟨hwi, -, -, hwr⟩ := hw
    simp only [cTokens, List.append_assoc, List.cons_append, List.length_append,
      List.length_cons] at hd
    obtain ⟨depth, rfl⟩ : ∃ k, depth = k + 1 := Nat.exists_eq_add_of_le' (by omega)
    have htail := ih hwr h depth (by rw [List.length_append]; omega)
    have hassigned := C.readAssigned_cTokens ann hwi
      (Target.varName d.symbol.name d.decl) (tail.cTokens ann ++ rest)
    have hty := d.ty.readTy_cTokens (Target.varName d.symbol.name d.decl)
      (.sign .assign :: (d.init.cTokens ann ++ .sign .semicolon :: (tail.cTokens ann ++ rest)))
    have hall : C.readCode (depth + 1) (d.ty.cTokens ++
        .name (Target.varName d.symbol.name d.decl) :: .sign .assign ::
          (d.init.cTokens ann ++ .sign .semicolon :: (tail.cTokens ann ++ rest))) =
        some (.declare d.ty.cTy (Target.varName d.symbol.name d.decl) (d.init.cTerm ann)
          (tail.cCode ann last), rest') := by
      -- a type begins with a keyword, which tells a declaration from the other statements
      cases hcase : d.ty <;> rw [hcase] at hty <;>
        simp only [Ty.cTokens, List.cons_append, List.nil_append] at hty ⊢ <;>
        simp [C.readCode, hty, hassigned, htail]
    simpa [cTokens, cCode] using hall
  | assign a tail ih =>
    intro depth hd
    obtain ⟨hwv, -, hwr⟩ := hw
    simp only [cTokens, List.append_assoc, List.cons_append, List.length_append,
      List.length_cons] at hd
    obtain ⟨depth, rfl⟩ : ∃ k, depth = k + 1 := Nat.exists_eq_add_of_le' (by omega)
    have htail := ih hwr h depth (by rw [List.length_append]; omega)
    have hassigned := C.readAssigned_cTokens ann hwv
      (ann.targetName a.node.id a.symbol.name) (tail.cTokens ann ++ rest)
    simp [cTokens, cCode, C.readCode, hassigned, htail]
  | loop w body tail ihb ihr =>
    intro depth hd
    obtain ⟨hwc, hwb, hwr⟩ := hw
    simp only [cTokens, List.append_assoc, List.cons_append, List.length_append,
      List.length_cons] at hd
    obtain ⟨depth, rfl⟩ : ∃ k, depth = k + 2 := Nat.exists_eq_add_of_le' (by omega)
    have htail := ihr hwr h (depth + 1) (by rw [List.length_append]; omega)
    -- the body ends at the brace, whatever comes after that
    have hstop : C.ReadsCode (.sign .braceR :: (tail.cTokens ann ++ rest)) .done
        (.sign .braceR :: (tail.cTokens ann ++ rest)) := by
      intro depth hd
      obtain ⟨depth, rfl⟩ := Nat.exists_eq_add_of_le' (Nat.le_trans (Nat.le_add_left 1 _) hd)
      rfl
    have hbody := ihb hwb hstop (depth + 1) (by
      rw [List.length_append, List.length_cons, List.length_append]
      omega)
    have hcond := Expr.readWhole_cTokens ann hwc (.sign (s := .parenR) rfl
      (.sign .braceL :: (body.cTokens ann ++ .sign .braceR :: (tail.cTokens ann ++ rest))))
    simp [cTokens, cCode, C.readCode, C.expect, hcond, hbody, htail]

/-! ## Programs -/

/-- A call of `printf` begins with a condition unless it begins with a string literal. -/
theorem C.readPrinted_choice {ts rest : List C.Token} {cond : C.Term} {yes no : List Char}
    (hts : ∀ content tail, ts ≠ .string content :: tail)
    (hc : C.readWhole ts =
      some (cond, .sign .question :: .string yes :: .sign .colon :: .string no :: rest)) :
    C.readPrinted ts = some (.choice cond yes no, rest) := by
  rw [readPrinted.eq_def]
  split
  · exact absurd rfl (hts _ _)
  · rw [hc]
    rfl

theorem Expr.cTokens_ne_string {ann : Annotations} {e : Expr} (hw : e.Whole)
    (rest : List C.Token) (content : List Char) (tail : List C.Token) :
    e.cTokens ann ++ rest ≠ .string content :: tail := by
  cases e with
  | int n v =>
    rw [cTokens, intTokens]
    split
    · simp
    · split <;> simp
  | hole n => exact hw.elim
  | _ => simp [cTokens]

/-- The result in parentheses, after a cast. -/
theorem Expr.readWhole_cast (ann : Annotations) {e : Expr} (hw : e.Whole) (rest : List C.Token) :
    C.readWhole (.sign .parenL :: .keyword .long :: .keyword .long :: .sign .parenR ::
        .sign .parenL :: (e.cTokens ann ++ .sign .parenR :: .sign .parenR :: rest)) =
      some (.cast .longLong (e.cTerm ann), .sign .parenR :: rest) := by
  obtain ⟨d, hd⟩ : ∃ d, 2 * (C.Token.sign .parenL :: .keyword .long :: .keyword .long ::
      .sign .parenR :: .sign .parenL ::
        (e.cTokens ann ++ .sign .parenR :: .sign .parenR :: rest)).length =
        2 * (e.cTokens ann).length + d + 5 :=
    ⟨2 * rest.length + 9, by simp only [List.length_cons, List.length_append]; omega⟩
  have he : C.readOperand (2 * (e.cTokens ann).length + d + 3)
      (e.cTokens ann ++ .sign .parenR :: .sign .parenR :: rest) = _ :=
    readOperand_cTokens hw (by omega) _
  have hinner : C.readTerm (2 * (e.cTokens ann).length + d + 4) 0 _ = _ :=
    C.readTerm_of_operand he (.sign rfl _)
  have hparens := C.readOperand_parenthesis (readTy_cTokens hw _) hinner
  rw [C.readWhole, hd]
  exact C.readTerm_of_operand (C.readOperand_cast hparens) (.sign rfl _)

theorem readPrinted_printedTokens (ty : Ty) (ann : Annotations) {e : Expr} (hw : e.Whole)
    (rest : List C.Token) :
    C.readPrinted (printedTokens ty (e.cTokens ann) ++ .sign .parenR :: rest) =
      some (cPrinted ty (e.cTerm ann), .sign .parenR :: rest) := by
  unfold printedTokens cPrinted
  split
  · rw [List.append_assoc]
    exact C.readPrinted_choice (e.cTokens_ne_string hw _)
      (e.readWhole_cTokens ann hw (.sign rfl _))
  · have harg := e.readWhole_cast ann hw rest
    simp [C.readPrinted, C.readArguments, harg]

theorem readCode_endTokens (ty : Ty) (ann : Annotations) {e : Expr} (hw : e.Whole) :
    C.ReadsCode (endTokens ty (e.cTokens ann)) (.print (cPrinted ty (e.cTerm ann)) .done)
      [.keyword .return, .number 0 "", .sign .semicolon, .sign .braceR] := by
  intro depth hd
  obtain ⟨depth, rfl⟩ : ∃ k, depth = k + 2 := by
    simp only [endTokens, List.length_cons, List.length_append] at hd
    exact Nat.exists_eq_add_of_le' (by omega)
  have hprinted := readPrinted_printedTokens ty ann hw
    [.sign .semicolon, .keyword .return, .number 0 "", .sign .semicolon, .sign .braceR]
  simp [endTokens, C.readCode, C.expect, hprinted]

/-- **A text with the tokens of a whole program is read as that program.** -/
theorem Program.ofText_cTokens {p : Program} (hw : p.Whole) {ann : Annotations} {text : String}
    (h : C.Reads text.toList (p.cTokens ann)) : C.Main.ofText text = some (p.cMain ann) := by
  have hcode := Block.readCode_cTokens ann hw.1
    (readCode_endTokens (ann.tyOf p.result) ann hw.2) _ (Nat.le_refl _)
  have htokens : C.tokens text.toList = some (p.cTokens ann) := h
  have hdirectives : C.takeDirectives (p.cTokens ann) =
      (["include <stdbool.h>", "include <stdio.h>"], .keyword .int :: .name "main" ::
        .sign .parenL :: .sign .parenR :: .sign .braceL ::
          (p.body.cTokens ann ++ endTokens (ann.tyOf p.result) (p.result.cTokens ann))) := by
    rw [cTokens, List.append_assoc]
    rfl
  rw [C.Main.ofText, htokens]
  simp only [Option.bind_eq_bind, Option.bind_some, hdirectives, if_true]
  rw [C.readMain, hcode]
  rfl

/-- **A valid program has C code, which is read as the program it is.** -/
theorem Program.Valid.code_c {ann : Annotations} {p : Program} (h : p.Valid ann) {indent : Indent}
    (hi : indent.CBlank) :
    ∃ text, p.code .c ann indent = .ok text ∧ C.Main.ofText text = some (p.cMain ann) := by
  obtain ⟨text, hcode, hread⟩ := Program.code_reads hi h.whole h.body.resolved h.result.resolved
  exact ⟨text, hcode, Program.ofText_cTokens h.whole hread⟩

end WhileLang
