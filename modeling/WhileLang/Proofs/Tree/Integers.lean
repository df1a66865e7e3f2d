import WhileLang.Proofs.Tree.Signed

/-!
# `WhileLang/Proofs/Tree/Integers.lean` — the integers of a tree, and what signs do to them

A sign is read back as an operator, so a tree is read back as it is when it has no negative integer
(`signed_eq_self`), and each negative one costs the text **one more pair of parentheses**
(`Program.count_text_signed`). What is left behind the sign is negative again only for the least
integer, which is its own negative.
-/

set_option autoImplicit false

namespace WhileLang

/-- The integers in an expression, from left to right. -/
def Expr.ints : Expr → List Int64
  | .binary _ _ l r => l.ints ++ r.ints
  | .unary _ _ e => e.ints
  | .int _ v => [v]
  | .bool _ _ | .var _ _ | .hole _ => []

def Block.ints : Block → List Int64
  | .done => []
  | .declare d rest => d.init.ints ++ rest.ints
  | .assign a rest => a.value.ints ++ rest.ints
  | .loop w body rest => w.cond.ints ++ body.ints ++ rest.ints

def Program.ints (p : Program) : List Int64 :=
  p.body.ints ++ p.result.ints

/-- What is written for an integer behind its sign, if it has one. -/
def unsigned (v : Int64) : Int64 :=
  if v < 0 then -v else v

theorem unsigned_lt_zero {v : Int64} : unsigned v < 0 ↔ v = Int64.minValue := by
  have hmin : v = Int64.minValue ↔ v.toInt = -9223372036854775808 := by
    rw [← Int64.toInt_inj, Int64.toInt_minValue]
    rfl
  have hle : -9223372036854775808 ≤ v.toInt := v.le_toInt
  have hlt : v.toInt < 9223372036854775808 := v.toInt_lt
  rw [hmin, unsigned]
  split
  · rename_i hv
    rw [Int64.lt_iff_toInt_lt] at hv ⊢
    simp only [Int64.toInt_neg, Int64.toInt_zero, Int.bmod_def] at hv ⊢
    omega
  · rename_i hv
    rw [Int64.lt_iff_toInt_lt] at hv ⊢
    simp only [Int64.toInt_zero] at hv ⊢
    omega

theorem unsigned_eq_minValue {v : Int64} : unsigned v = Int64.minValue ↔ v = Int64.minValue := by
  constructor
  · intro h
    apply unsigned_lt_zero.1
    rw [h]
    decide
  · rintro rfl
    decide

/-! ## The integers of a signed tree -/

theorem Expr.ints_signed (e : Expr) : e.signed.ints = e.ints.map unsigned := by
  induction e with
  | binary n op l r ihl ihr => simp only [signed, ints, ihl, ihr, List.map_append]
  | unary n op e ih => exact ih
  | int n v =>
    simp only [signed, ints, unsigned, List.map_singleton]
    split <;> rfl
  | bool n b | var n s | hole n => rfl

theorem Block.ints_signed (b : Block) : b.signed.ints = b.ints.map unsigned := by
  induction b with
  | done => rfl
  | declare d rest ih => simp only [signed, ints, ih, Expr.ints_signed, List.map_append]
  | assign a rest ih => simp only [signed, ints, ih, Expr.ints_signed, List.map_append]
  | loop w body rest ihb ihr =>
    simp only [signed, ints, ihb, ihr, Expr.ints_signed, List.map_append]

theorem Program.ints_signed (p : Program) : p.signed.ints = p.ints.map unsigned := by
  simp only [signed, ints, Block.ints_signed, Expr.ints_signed, List.map_append]

/-- After one more reading the least integer is the only negative one. -/
theorem Program.nonneg_ints_signed {p : Program} :
    (∀ v ∈ p.signed.ints, 0 ≤ v) ↔ Int64.minValue ∉ p.ints := by
  rw [ints_signed, List.forall_mem_map]
  constructor
  · intro h hmin
    exact absurd (h _ hmin) (by decide)
  · intro h v hv
    rw [← Int64.not_lt, unsigned_lt_zero]
    rintro rfl
    exact h hv

theorem Program.minValue_mem_ints_signed {p : Program} :
    Int64.minValue ∈ p.signed.ints ↔ Int64.minValue ∈ p.ints := by
  rw [ints_signed, List.mem_map]
  simp only [unsigned_eq_minValue, exists_eq_right]

/-! ## Trees without negative integers -/

theorem Expr.signed_eq_self {e : Expr} (h : ∀ v ∈ e.ints, 0 ≤ v) : e.signed = e := by
  induction e with
  | binary n op l r ihl ihr =>
    rw [ints, List.forall_mem_append] at h
    rw [signed, ihl h.1, ihr h.2]
  | unary n op e ih => rw [signed, ih h]
  | int n v => rw [signed, if_neg (Int64.not_lt.2 (h v (List.mem_singleton_self v)))]
  | bool n b | var n s | hole n => rfl

theorem Block.signed_eq_self {b : Block} (h : ∀ v ∈ b.ints, 0 ≤ v) : b.signed = b := by
  induction b with
  | done => rfl
  | declare d rest ih =>
    rw [ints, List.forall_mem_append] at h
    rw [signed, Expr.signed_eq_self h.1, ih h.2]
  | assign a rest ih =>
    rw [ints, List.forall_mem_append] at h
    rw [signed, Expr.signed_eq_self h.1, ih h.2]
  | loop w body rest ihb ihr =>
    rw [ints, List.forall_mem_append, List.forall_mem_append] at h
    rw [signed, Expr.signed_eq_self h.1.1, ihb h.1.2, ihr h.2]

theorem Program.signed_eq_self {p : Program} (h : ∀ v ∈ p.ints, 0 ≤ v) : p.signed = p := by
  rw [ints, List.forall_mem_append] at h
  rw [signed, Block.signed_eq_self h.1, Expr.signed_eq_self h.2]

/-! ## Parentheses -/

/-- The text of an integer has no parentheses. -/
theorem count_toString_int64 (v : Int64) : (toString v).toList.count '(' = 0 := by
  have hdigits (n : Nat) : '(' ∉ Nat.toDigits 10 n := by
    intro h
    exact absurd (Nat.isDigit_of_mem_toDigits (by decide) (by decide) h) (by decide)
  rw [List.count_eq_zero, toList_toString_int64]
  split
  · rw [List.mem_cons]
    rintro (h | h)
    · exact absurd h (by decide)
    · exact hdigits _ h
  · exact hdigits _

theorem Expr.count_text_signed (e : Expr) :
    e.signed.text.toList.count '(' = e.text.toList.count '(' + e.ints.countP (· < 0) := by
  induction e with
  | binary n op l r ihl ihr =>
    simp only [signed, text, ints, String.toList_append, List.count_append, ihl, ihr,
      List.countP_append]
    omega
  | unary n op e ih =>
    simp only [signed, text, ints, String.toList_append, List.count_append, ih]
    omega
  | int n v =>
    rw [signed]
    split
    · rename_i hv
      simp [text, ints, hv, count_toString_int64, UnaryOp.text, UnaryOp.mark, Mark.text]
    · rename_i hv
      simp [ints, hv]
  | bool n b | var n s | hole n => rfl

theorem Block.count_chars_lines_signed (indent : Indent) (depth : Nat) (b : Block) :
    (Line.chars indent (b.signed.lines depth)).count '(' =
      (Line.chars indent (b.lines depth)).count '(' + b.ints.countP (· < 0) := by
  induction b generalizing depth with
  | done => rfl
  | declare d rest ih =>
    simp only [signed, lines, ints, Line.chars_cons, Line.render, String.toList_append,
      List.count_append, List.countP_append, Expr.count_text_signed, ih]
    omega
  | assign a rest ih =>
    simp only [signed, lines, ints, Line.chars_cons, Line.render, String.toList_append,
      List.count_append, List.countP_append, Expr.count_text_signed, ih]
    omega
  | loop w body rest ihb ihr =>
    simp only [signed, lines, ints, Line.chars_append, Line.chars_cons, Line.render,
      String.toList_append, List.count_append, List.countP_append, Expr.count_text_signed, ihb, ihr]
    omega

/-- **Every negative integer costs one more pair of parentheses.** -/
theorem Program.count_text_signed (p : Program) (indent : Indent) :
    (p.signed.text indent).toList.count '(' =
      (p.text indent).toList.count '(' + p.ints.countP (· < 0) := by
  simp only [text, lines, signed, ints, Line.toList_renderAll, Line.chars_append, Line.chars_cons,
    Line.render, String.toList_append, List.count_append, List.countP_append,
    Block.count_chars_lines_signed, Expr.count_text_signed]
  omega

/-- **Signs leave the text alone exactly when no integer is negative.** -/
theorem Program.text_signed_eq_iff {p : Program} {indent : Indent} :
    p.signed.text indent = p.text indent ↔ ∀ v ∈ p.ints, 0 ≤ v := by
  constructor
  · intro h v hv
    have hcount := p.count_text_signed indent
    rw [h, Nat.left_eq_add, List.countP_eq_zero] at hcount
    exact Int64.not_lt.1 fun hneg => hcount v hv (decide_eq_true hneg)
  · intro h
    rw [signed_eq_self h]

end WhileLang
