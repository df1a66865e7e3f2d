import WhileLang.Proofs.Evaluation.Scoped
import WhileLang.Proofs.Tree.Canonical
import WhileLang.Proofs.Tree.Shape
import WhileLang.Proofs.Typing.WellTyped

/-!
# `WhileLang/Proofs/Tree/Signed.lean` — negative integers as the parser reads them

There are no negative literals: a literal is negative only because its digits were reduced to 64
bits. Its canonical text is a minus sign and digits, so what is read back is **the sign applied to
the negative of the integer**. A tree is signed when all its negative integers are written so. That
changes neither its types nor its values; the least integer is its own negative, and both readings
of it come to the same value because negation wraps.
-/

set_option autoImplicit false

namespace WhileLang

def Expr.signed : Expr → Expr
  | .binary n op l r => .binary n op l.signed r.signed
  | .unary n op e => .unary n op e.signed
  | .int n v => if v < 0 then .unary n .neg (.int n (-v)) else .int n v
  | .bool n b => .bool n b
  | .var n s => .var n s
  | .hole n => .hole n

def Block.signed : Block → Block
  | .done => .done
  | .declare d rest => .declare { d with init := d.init.signed } rest.signed
  | .assign a rest => .assign { a with value := a.value.signed } rest.signed
  | .loop w body rest => .loop { w with cond := w.cond.signed } body.signed rest.signed

def Program.signed (p : Program) : Program :=
  { p with body := p.body.signed, result := p.result.signed }

/-! ## Numbers -/

theorem Expr.length_numbers_signed (e : Expr) :
    e.signed.numbers.length ≤ 2 * e.numbers.length := by
  induction e with
  | binary n op l r ihl ihr =>
    simp only [signed, numbers, List.length_append, List.length_singleton]
    omega
  | unary n op e ih =>
    simp only [signed, numbers, List.length_append, List.length_singleton]
    omega
  | int n v =>
    rw [signed]
    split <;> simp [numbers]
  | _ => simp [signed, numbers]

namespace Block

theorem length_numbers_signed (b : Block) : b.signed.numbers.length ≤ 2 * b.numbers.length := by
  induction b with
  | done => simp [signed, numbers]
  | declare d rest ih =>
    have := d.init.length_numbers_signed
    simp only [signed, numbers, List.length_append, List.length_singleton]
    omega
  | assign a rest ih =>
    have := a.value.length_numbers_signed
    simp only [signed, numbers, List.length_append, List.length_singleton]
    omega
  | loop w body rest ihb ihr =>
    have := w.cond.length_numbers_signed
    simp only [signed, numbers, List.length_append, List.length_singleton]
    omega

theorem declNumbers_signed (b : Block) : b.signed.declNumbers = b.declNumbers := by
  induction b with
  | done => rfl
  | declare d rest ih => simp [signed, declNumbers, ih]
  | assign a rest ih => exact ih
  | loop w body rest ihb ihr => simp [signed, declNumbers, ihb, ihr]

end Block

theorem Program.length_numbers_signed (p : Program) :
    p.signed.numbers.length ≤ 2 * p.numbers.length := by
  have hb := p.body.length_numbers_signed
  have hr := p.result.length_numbers_signed
  simp only [signed, numbers, List.length_append]
  omega

/-! ## Wholeness and types -/

namespace Expr

theorem whole_bare {e : Expr} : e.bare.Whole ↔ e.Whole := by
  induction e with
  | binary n op l r ihl ihr => exact and_congr ihl ihr
  | unary n op e ih => exact ih
  | _ => exact Iff.rfl

theorem Whole.signed {e : Expr} (h : e.Whole) : e.signed.Whole := by
  induction e with
  | binary n op l r ihl ihr => exact ⟨ihl h.1, ihr h.2⟩
  | unary n op e ih => exact ih h
  | int n v =>
    rw [Expr.signed]
    split <;> trivial
  | _ => exact h

theorem hasTy_bare {Γ : Context} {e : Expr} {ty : Ty} : e.bare.HasTy Γ ty ↔ e.HasTy Γ ty := by
  induction e generalizing ty with
  | binary n op l r ihl ihr =>
    constructor
    · intro h
      cases h with
      | binary hl hr => exact .binary (ihl.1 hl) (ihr.1 hr)
    · intro h
      cases h with
      | binary hl hr => exact .binary (ihl.2 hl) (ihr.2 hr)
  | unary n op e ih =>
    constructor
    · intro h
      cases h with
      | unary he => exact .unary (ih.1 he)
    · intro h
      cases h with
      | unary he => exact .unary (ih.2 he)
  | bool n b => exact ⟨fun h => by cases h; exact .bool, fun h => by cases h; exact .bool⟩
  | int n v => exact ⟨fun h => by cases h; exact .int, fun h => by cases h; exact .int⟩
  | var n s =>
    exact ⟨fun h => by cases h with | var hx => exact .var hx,
      fun h => by cases h with | var hx => exact .var hx⟩
  | hole n => exact ⟨fun h => (by cases h), fun h => (by cases h)⟩

theorem HasTy.signed {Γ : Context} {e : Expr} {ty : Ty} (h : e.HasTy Γ ty) :
    e.signed.HasTy Γ ty := by
  induction h with
  | binary _ _ ihl ihr => exact .binary ihl ihr
  | unary _ ih => exact .unary ih
  | bool => exact .bool
  | @int n v =>
    rw [Expr.signed]
    split
    · have hneg : (Expr.unary n .neg (.int n (-v))).HasTy Γ UnaryOp.neg.operand := .unary .int
      exact hneg
    · exact .int
  | var hx => exact .var hx

end Expr

namespace Block

theorem whole_shape {b : Block} : b.shape.Whole ↔ b.Whole := by
  induction b with
  | done => exact Iff.rfl
  | declare d rest ih =>
    exact and_congr Expr.whole_bare (and_congr Iff.rfl (and_congr Iff.rfl ih))
  | assign a rest ih => exact and_congr Expr.whole_bare (and_congr Iff.rfl ih)
  | loop w body rest ihb ihr => exact and_congr Expr.whole_bare (and_congr ihb ihr)

theorem Whole.signed {b : Block} (h : b.Whole) : b.signed.Whole := by
  induction b with
  | done => trivial
  | declare d rest ih => exact ⟨h.1.signed, h.2.1, h.2.2.1, ih h.2.2.2⟩
  | assign a rest ih => exact ⟨h.1.signed, h.2.1, ih h.2.2⟩
  | loop w body rest ihb ihr => exact ⟨h.1.signed, ihb h.2.1, ihr h.2.2⟩

theorem wellTyped_shape {Γ Γ' : Context} {b : Block} :
    b.shape.WellTyped Γ Γ' ↔ b.WellTyped Γ Γ' := by
  induction b generalizing Γ Γ' with
  | done => exact Iff.rfl
  | declare d rest ih =>
    constructor
    · intro h
      cases h with
      | declare hinit hnew hrest => exact .declare (Expr.hasTy_bare.1 hinit) hnew (ih.1 hrest)
    · intro h
      cases h with
      | declare hinit hnew hrest => exact .declare (Expr.hasTy_bare.2 hinit) hnew (ih.2 hrest)
  | assign a rest ih =>
    constructor
    · intro h
      cases h with
      | assign hx hv hrest => exact .assign hx (Expr.hasTy_bare.1 hv) (ih.1 hrest)
    · intro h
      cases h with
      | assign hx hv hrest => exact .assign hx (Expr.hasTy_bare.2 hv) (ih.2 hrest)
  | loop w body rest ihb ihr =>
    constructor
    · intro h
      cases h with
      | loop hc hb hr => exact .loop (Expr.hasTy_bare.1 hc) (ihb.1 hb) (ihr.1 hr)
    · intro h
      cases h with
      | loop hc hb hr => exact .loop (Expr.hasTy_bare.2 hc) (ihb.2 hb) (ihr.2 hr)

theorem WellTyped.signed {Γ Γ' : Context} {b : Block} (h : b.WellTyped Γ Γ') :
    b.signed.WellTyped Γ Γ' := by
  induction h with
  | done => exact .done
  | declare hinit hnew _ ih => exact .declare hinit.signed hnew ih
  | assign hx hv _ ih => exact .assign hx hv.signed ih
  | loop hc _ _ ihb ihr => exact .loop hc.signed ihb ihr

end Block

namespace Program

theorem whole_shape {p : Program} : p.shape.Whole ↔ p.Whole :=
  and_congr Block.whole_shape Expr.whole_bare

theorem Whole.signed {p : Program} (h : p.Whole) : p.signed.Whole :=
  ⟨Block.Whole.signed h.1, Expr.Whole.signed h.2⟩

theorem wellTyped_shape {p : Program} {ty : Ty} : p.shape.WellTyped ty ↔ p.WellTyped ty :=
  exists_congr fun _ => and_congr Block.wellTyped_shape Expr.hasTy_bare

theorem WellTyped.signed {p : Program} {ty : Ty} (h : p.WellTyped ty) :
    p.signed.WellTyped ty := by
  obtain ⟨Γ, hb, hr⟩ := h
  exact ⟨Γ, Block.WellTyped.signed hb, Expr.HasTy.signed hr⟩

end Program

/-! ## Texts -/

theorem Expr.text_bare (e : Expr) : e.bare.text = e.text := by
  induction e with
  | binary n op l r ihl ihr => rw [bare, text, ihl, ihr, text]
  | unary n op e ih => rw [bare, text, ih, text]
  | bool n b | int n v | var n s | hole n => rfl

theorem Block.lines_shape (b : Block) (depth : Nat) : b.shape.lines depth = b.lines depth := by
  induction b generalizing depth with
  | done => rfl
  | declare d rest ih => simp only [shape, lines, Declaration.bare, Symbol.bare, Expr.text_bare, ih]
  | assign a rest ih => simp only [shape, lines, Assignment.bare, Symbol.bare, Expr.text_bare, ih]
  | loop w body rest ihb ihr => simp only [shape, lines, LoopHead.bare, Expr.text_bare, ihb, ihr]

theorem Program.text_shape (p : Program) (indent : Indent) :
    p.shape.text indent = p.text indent := by
  simp only [text, lines, shape, Block.lines_shape, Expr.text_bare]

/-! ## Values -/

namespace Expr

theorem evalScoped_bare (env : Env) (e : Expr) : e.bare.evalScoped env = e.evalScoped env := by
  induction e with
  | binary n op l r ihl ihr => rw [bare, evalScoped, evalScoped, ihl, ihr]
  | unary n op e ih => rw [bare, evalScoped, evalScoped, ih]
  | _ => rfl

theorem evalScoped_signed (env : Env) (e : Expr) : e.signed.evalScoped env = e.evalScoped env := by
  induction e with
  | binary n op l r ihl ihr => rw [signed, evalScoped, evalScoped, ihl, ihr]
  | unary n op e ih => rw [signed, evalScoped, evalScoped, ih]
  | int n v =>
    rw [signed]
    split
    · show Except.ok (Value.int (- -v)) = .ok (.int v)
      rw [Int64.neg_neg]
    · rfl
  | _ => rfl

end Expr

namespace Block

theorem runScoped_shape (bound : Nat) (b : Block) :
    b.shape.runScoped bound = b.runScoped bound := by
  induction b with
  | done => rfl
  | declare d rest ih =>
    funext env
    simp only [shape, runScoped, Declaration.bare, Symbol.bare, Expr.evalScoped_bare, ih]
  | assign a rest ih =>
    funext env
    simp only [shape, runScoped, Assignment.bare, Expr.evalScoped_bare, ih]
    rfl
  | loop w body rest ihb ihr =>
    funext env
    simp only [shape, runScoped, LoopHead.bare, Expr.holdsScoped, Expr.evalScoped_bare, ihb, ihr]

theorem runScoped_signed (bound : Nat) (b : Block) :
    b.signed.runScoped bound = b.runScoped bound := by
  induction b with
  | done => rfl
  | declare d rest ih =>
    funext env
    simp only [signed, runScoped, Expr.evalScoped_signed, ih]
  | assign a rest ih =>
    funext env
    simp only [signed, runScoped, Expr.evalScoped_signed, ih]
  | loop w body rest ihb ihr =>
    funext env
    simp only [signed, runScoped, Expr.holdsScoped, Expr.evalScoped_signed, ihb, ihr]

end Block

namespace Program

theorem evalScoped_shape (p : Program) (bound : Nat) :
    p.shape.evalScoped bound = p.evalScoped bound := by
  simp only [shape, evalScoped, Block.runScoped_shape, Expr.evalScoped_bare]

theorem evalScoped_signed (p : Program) (bound : Nat) :
    p.signed.evalScoped bound = p.evalScoped bound := by
  simp only [signed, evalScoped, Block.runScoped_signed, Expr.evalScoped_signed]

/-! ## Trees of the signed shape -/

variable {p p' : Program}

theorem Whole.of_shape_eq (h : p.Whole) (hp : p'.shape = p.signed.shape) : p'.Whole := by
  rw [← whole_shape, hp, whole_shape]
  exact h.signed

theorem WellTyped.of_shape_eq {ty : Ty} (h : p.WellTyped ty) (hp : p'.shape = p.signed.shape) :
    p'.WellTyped ty := by
  rw [← wellTyped_shape, hp, wellTyped_shape]
  exact h.signed

theorem evalScoped_of_shape_eq (hp : p'.shape = p.signed.shape) (bound : Nat) :
    p'.evalScoped bound = p.evalScoped bound := by
  rw [← evalScoped_shape, hp, evalScoped_shape, evalScoped_signed]

theorem length_numbers_of_shape_eq (hp : p'.shape = p.signed.shape) :
    p'.numbers.length ≤ 2 * p.numbers.length := by
  rw [← length_numbers_shape, hp, length_numbers_shape]
  exact p.length_numbers_signed

end Program

end WhileLang
