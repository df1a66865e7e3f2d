import WhileLang.Proofs.Parser.Whole
import WhileLang.Proofs.Token.Reading

/-!
# `WhileLang/Proofs/Tree/Canonical.lean` — what the canonical text reads as

The canonical text of a whole program reads as the lexemes listed here, whatever the indent is made
of, as long as that is blank. The shape of the list is the shape of the tree: **every binary
operator has its own parentheses and a unary operator has them around its operand**. A negative
integer is no literal; its text is a minus sign and the literal of its negative.
-/

set_option autoImplicit false

namespace WhileLang

/-! ## The lexemes of a tree -/

/-- How an integer is written: the digits of a negative one come after a minus sign. -/
def intLexemes (v : Int64) : List Lexeme :=
  if v < 0 then [.mark .sub, .literal (-v)] else [.literal v]

/-- The mark that names a type. -/
def Ty.mark : Ty → Mark
  | .int => .int
  | .bool | .unknown => .bool

def Expr.lexemes : Expr → List Lexeme
  | .binary _ op l r =>
    .mark .parenL :: (l.lexemes ++ .mark op.mark :: (r.lexemes ++ [.mark .parenR]))
  | .unary _ op e => .mark op.mark :: .mark .parenL :: (e.lexemes ++ [.mark .parenR])
  | .bool _ b => [.mark (if b then .true else .false)]
  | .int _ v => intLexemes v
  | .var _ s => [.name s.name]
  | .hole _ => []

def Block.lexemes : Block → List Lexeme
  | .done => []
  | .declare d rest =>
    .mark d.ty.mark :: .name d.symbol.name :: .mark .assign ::
      (d.init.lexemes ++ .mark .semicolon :: rest.lexemes)
  | .assign a rest =>
    .name a.symbol.name :: .mark .assign :: (a.value.lexemes ++ .mark .semicolon :: rest.lexemes)
  | .loop w body rest =>
    .mark .while :: (w.cond.lexemes ++ .mark .braceL ::
      (body.lexemes ++ .mark .braceR :: rest.lexemes))

def Program.lexemes (p : Program) : List Lexeme :=
  p.body.lexemes ++ .mark .return :: (p.result.lexemes ++ [.mark .semicolon])

/-! ## Integers -/

theorem ofNat_natAbs_of_nonneg {v : Int64} (h : ¬v < 0) :
    Int64.ofNat v.toInt.natAbs = v := by
  have hv : 0 ≤ v.toInt := by simpa [Int64.lt_iff_toInt_lt] using h
  rw [← Int64.ofInt_eq_ofNat, Int.natAbs_of_nonneg hv, Int64.ofInt_toInt]

theorem ofNat_natAbs_of_neg {v : Int64} (h : v < 0) : Int64.ofNat v.toInt.natAbs = -v := by
  have hv : v.toInt < 0 := by simpa [Int64.lt_iff_toInt_lt] using h
  rw [← Int64.ofInt_eq_ofNat, Int.ofNat_natAbs_of_nonpos (Int.le_of_lt hv), Int64.ofInt_neg,
    Int64.ofInt_toInt]

/-- The text of an integer, by its digits. -/
theorem toList_toString_int64 (v : Int64) :
    (toString v).toList =
      if v < 0 then '-' :: Nat.toDigits 10 v.toInt.natAbs else Nat.toDigits 10 v.toInt.natAbs := by
  have hv : toString v = v.toInt.repr := rfl
  rw [hv]
  have hneg : v < 0 ↔ v.toInt < 0 := by simp [Int64.lt_iff_toInt_lt]
  cases hi : v.toInt with
  | ofNat n => simp [hneg, hi, Int.repr, Nat.toList_repr]
  | negSucc n => simp [hneg, hi, Int.repr, Nat.toList_repr]

namespace Reads

variable {rest : List Char} {ls : List Lexeme}

theorem digits (n : Nat) (hs : Stops rest) (h : Reads rest ls) :
    Reads (Nat.toDigits 10 n ++ rest) (.literal (.ofNat n) :: ls) := by
  obtain ⟨c, more, hd, hall⟩ := exists_toDigits_eq_cons n
  have hr := h.number hall hs
  rwa [literalValue, ← hd, Nat.ofDigitChars_ten_toDigits] at hr

theorem int (v : Int64) (hs : Stops rest) (h : Reads rest ls) :
    Reads ((toString v).toList ++ rest) (intLexemes v ++ ls) := by
  rw [toList_toString_int64, intLexemes]
  have hd := h.digits v.toInt.natAbs hs
  split
  · rename_i hv
    rw [ofNat_natAbs_of_neg hv] at hd
    exact hd.operator (m := .sub) (by decide) (by simp)
  · rename_i hv
    rwa [ofNat_natAbs_of_nonneg hv] at hd

theorem parenL (h : Reads rest ls) : Reads ('(' :: rest) (.mark .parenL :: ls) :=
  h.operator (m := .parenL) (by decide) (by simp)

theorem parenR (h : Reads rest ls) : Reads (')' :: rest) (.mark .parenR :: ls) :=
  h.operator (m := .parenR) (by decide) (by simp)

end Reads

/-! ## Expressions -/

theorem BinaryOp.mark_mem (op : BinaryOp) : op.mark ∈ Mark.keywords ∨ op.mark ∈ Mark.operators := by
  cases op <;> decide

/-- The text of an expression reads as its lexemes, if a number at its end is not made longer. -/
theorem Expr.reads_text {e : Expr} (hw : e.Whole) {rest : List Char} {ls : List Lexeme}
    (hs : Stops rest) (h : Reads rest ls) : Reads (e.text.toList ++ rest) (e.lexemes ++ ls) := by
  induction e generalizing rest ls with
  | binary n op l r ihl ihr =>
    have hr := ihr hw.2 (.cons (by decide) _) h.parenR
    have hop := (hr.markSpace op.mark_mem).space
    have hl := (ihl hw.1 (.cons (by decide) _) hop).parenL
    simpa [text, lexemes, BinaryOp.text] using hl
  | unary n op e ih =>
    have he := (ih hw (.cons (by decide) _) h.parenR).parenL
    have hop : Reads (op.mark.text.toList ++ '(' :: (e.text.toList ++ ')' :: rest))
        (.mark op.mark :: .mark .parenL :: (e.lexemes ++ .mark .parenR :: ls)) := by
      cases op with
      | plus => exact he.operator (m := .add) (by decide) (by simp)
      | neg => exact he.operator (m := .sub) (by decide) (by simp)
      | not => exact he.keyword (m := .not) (by decide) (.cons (by decide) _)
    simpa [text, lexemes, UnaryOp.text] using hop
  | bool n b =>
    cases b
    · exact h.keyword (m := .false) (by decide) hs
    · exact h.keyword (m := .true) (by decide) hs
  | int n v => exact h.int v hs
  | var n s => exact h.name hw hs
  | hole n => exact hw.elim

/-! ## Lines -/

/-- The indent is made of characters that the lexer passes over. -/
def Indent.Blank (indent : Indent) : Prop :=
  ∀ c ∈ indent.unit.toList, isBlank c = true

/-- The characters of lines. -/
def Line.chars (indent : Indent) (lines : List Line) : List Char :=
  lines.flatMap fun l => (l.render indent).toList

theorem Line.chars_cons (indent : Indent) (l : Line) (lines : List Line) :
    Line.chars indent (l :: lines) = (l.render indent).toList ++ Line.chars indent lines := rfl

theorem Line.chars_append (indent : Indent) (ls ls' : List Line) :
    Line.chars indent (ls ++ ls') = Line.chars indent ls ++ Line.chars indent ls' :=
  List.flatMap_append

theorem Line.toList_renderAll (indent : Indent) (lines : List Line) :
    (Line.renderAll indent lines).toList = Line.chars indent lines := by
  rw [renderAll, String.toList_join, List.flatMap_map, chars]

/-- What stands before a line is made of what the indent is made of. -/
theorem Indent.forall_before {P : Char → Prop} {indent : Indent}
    (h : ∀ c ∈ indent.unit.toList, P c) (depth : Nat) :
    ∀ c ∈ (indent.before depth).toList, P c := by
  induction depth with
  | zero => simp [Indent.before]
  | succ depth ih =>
    intro c hc
    rw [Indent.before, String.toList_append, List.mem_append] at hc
    rcases hc with hc | hc
    · exact ih c hc
    · exact h c hc

/-- The indent and the newline of a line are passed over. -/
theorem Reads.line {indent : Indent} (hi : indent.Blank) (line : Line) (lines : List Line)
    {rest : List Char} {ls : List Lexeme}
    (h : Reads (line.text.toList ++ '\n' :: (Line.chars indent lines ++ rest)) ls) :
    Reads (Line.chars indent (line :: lines) ++ rest) ls := by
  simpa [Line.chars, Line.render] using h.blanks (Indent.forall_before hi line.depth)

/-! ## Statements -/

theorem Ty.text_eq_text_mark {t : Ty} (h : t ≠ .unknown) : t.text = t.mark.text := by
  cases t <;> first | rfl | exact absurd rfl h

theorem Ty.mark_mem (t : Ty) : t.mark ∈ Mark.keywords := by
  cases t <;> decide

namespace Reads

variable {rest : List Char} {ls : List Lexeme}

theorem semicolon (h : Reads rest ls) : Reads (';' :: rest) (.mark .semicolon :: ls) :=
  h.operator (m := .semicolon) (by decide) (by simp)

theorem braceL (h : Reads rest ls) : Reads ('\x7b' :: rest) (.mark .braceL :: ls) :=
  h.operator (m := .braceL) (by decide) (by simp)

theorem braceR (h : Reads rest ls) : Reads ('\x7d' :: rest) (.mark .braceR :: ls) :=
  h.operator (m := .braceR) (by decide) (by simp)

/-- A name, an assignment sign and a value, as they stand in a declaration and an assignment. -/
theorem assigned {x : String} (hx : IsName x) {e : Expr} (hw : e.Whole) (h : Reads rest ls) :
    Reads (x.toList ++ ' ' :: '=' :: ' ' :: (e.text.toList ++ ';' :: '\n' :: rest))
      (.name x :: .mark .assign :: (e.lexemes ++ .mark .semicolon :: ls)) := by
  have hnl := h.newline
  have he := Expr.reads_text hw (.cons (by decide) _) hnl.semicolon
  have hsign := he.markSpace (m := .assign) (by decide)
  exact hsign.space.name hx (.cons (by decide) _)

end Reads

theorem Block.reads_lines {indent : Indent} (hi : indent.Blank) {b : Block} (hw : b.Whole)
    (depth : Nat) {rest : List Char} {ls : List Lexeme} (h : Reads rest ls) :
    Reads (Line.chars indent (b.lines depth) ++ rest) (b.lexemes ++ ls) := by
  induction b generalizing depth rest ls with
  | done => exact h
  | declare d rest' ih =>
    obtain ⟨hwi, hty, hs, hwr⟩ := hw
    have hbody := (ih hwr depth h).assigned hs hwi
    have hall := hbody.markSpace (.inl d.ty.mark_mem)
    apply Reads.line hi
    simpa [lexemes, Ty.text_eq_text_mark hty] using hall
  | assign a rest' ih =>
    obtain ⟨hwv, hs, hwr⟩ := hw
    apply Reads.line hi
    simpa [lexemes] using (ih hwr depth h).assigned hs hwv
  | loop w body rest' ihb ihr =>
    obtain ⟨hwc, hwb, hwr⟩ := hw
    have hend : Reads (Line.chars indent (⟨depth, "\x7d"⟩ :: rest'.lines depth) ++ rest)
        (.mark .braceR :: (rest'.lexemes ++ ls)) := by
      apply Reads.line hi
      simpa using (ihr hwr depth h).newline.braceR
    have hbody := (ihb hwb (depth + 1) hend).newline.braceL
    have hcond := Expr.reads_text hwc (.cons (by decide) _) hbody.space
    have hall := hcond.markSpace (m := .while) (by decide)
    have hline := Reads.line hi ⟨depth, "while " ++ w.cond.text ++ " \x7b"⟩ []
      (by simpa [Line.chars, Mark.text] using hall)
    simpa [lexemes, lines, Line.chars] using hline

/-- **The canonical text of a whole program reads as the lexemes of its tree.** -/
theorem Program.reads_text {indent : Indent} (hi : indent.Blank) {p : Program} (hw : p.Whole) :
    Reads (p.text indent).toList p.lexemes := by
  have hnl := Reads.nil.newline
  have hresult := Expr.reads_text hw.2 (.cons (by decide) _) hnl.semicolon
  have hreturn := hresult.markSpace (m := .return) (by decide)
  have hline : Reads (Line.chars indent [⟨0, "return " ++ p.result.text ++ ";"⟩] ++ [])
      (.mark .return :: (p.result.lexemes ++ [.mark .semicolon])) := by
    apply Reads.line hi
    simpa [Line.chars, Mark.text] using hreturn
  have hall := Block.reads_lines hi hw.1 0 hline
  rw [text, Line.toList_renderAll, lines, lexemes]
  simpa [Line.chars] using hall

end WhileLang
