import WhileLang.Proofs.Tree.Integers

/-!
# `WhileLang/Proofs/Tree/Regrouped.lean` — how the canonical text groups its operators

The canonical form puts parentheses around binary operators and around what a unary operator is
applied to, and **none around a unary operator itself**. That is enough unless the operator after it
binds tighter than the unary one: `(not(x) == y)` is read as the negation of a comparison. A tree is
**regrouped** when every negation has taken the tighter operator to its right into its operand, as
it does when the text is read.

So the canonical text means the tree itself exactly when no `not` is the left operand of an
arithmetic operator or a comparison (`Program.bare_regrouped_iff`). Every well-typed tree is like
that, since a negation is no integer.
-/

set_option autoImplicit false

namespace WhileLang

/-- No operator would take the negation to its left apart. -/
def Expr.Readable : Expr → Prop
  | .binary _ op l r =>
    (∀ n e, l = .unary n .not e → op.level.rank < UnaryOp.not.level.rank) ∧
      l.Readable ∧ r.Readable
  | .unary _ _ e => e.Readable
  | .bool _ _ | .int _ _ | .var _ _ => True
  | .hole _ => False

/-- The same for all expressions of a block; and every declaration has one of the two types. -/
def Block.Readable : Block → Prop
  | .done => True
  | .declare d rest => d.init.Readable ∧ d.ty ≠ .unknown ∧ rest.Readable
  | .assign a rest => a.value.Readable ∧ rest.Readable
  | .loop w body rest => w.cond.Readable ∧ body.Readable ∧ rest.Readable

def Program.Readable (p : Program) : Prop :=
  p.body.Readable ∧ p.result.Readable

/-! ## Regrouping -/

/-- What the canonical text of an expression is read as: a negation that is the left operand of a
tighter operator is applied to the result of that. -/
def Expr.regrouped : Expr → Expr
  | .binary n op (.unary m .not e) r =>
    if op.level.rank < UnaryOp.not.level.rank then
      .binary n op (Expr.unary m .not e).regrouped r.regrouped
    else .unary m .not (.binary n op e.regrouped r.regrouped)
  | .binary n op l r => .binary n op l.regrouped r.regrouped
  | .unary n op e => .unary n op e.regrouped
  | .bool n b => .bool n b
  | .int n v => .int n v
  | .var n s => .var n s
  | .hole n => .hole n

def Block.regrouped : Block → Block
  | .done => .done
  | .declare d rest => .declare { d with init := d.init.regrouped } rest.regrouped
  | .assign a rest => .assign { a with value := a.value.regrouped } rest.regrouped
  | .loop w body rest => .loop { w with cond := w.cond.regrouped } body.regrouped rest.regrouped

def Program.regrouped (p : Program) : Program :=
  { p with body := p.body.regrouped, result := p.result.regrouped }

namespace Expr

theorem regrouped_of_loose {n : Node} {op : BinaryOp} {l r : Expr}
    (h : ∀ m e, l = .unary m .not e → op.level.rank < UnaryOp.not.level.rank) :
    (binary n op l r).regrouped = .binary n op l.regrouped r.regrouped := by
  by_cases hl : ∃ m e, l = .unary m .not e
  · obtain ⟨m, e, rfl⟩ := hl
    rw [regrouped, if_pos (h m e rfl)]
  · rw [regrouped]
    intro m e he
    exact hl ⟨m, e, he⟩

theorem regrouped_of_tight {n m : Node} {op : BinaryOp} {e r : Expr}
    (h : ¬op.level.rank < UnaryOp.not.level.rank) :
    (binary n op (.unary m .not e) r).regrouped =
      .unary m .not (.binary n op e.regrouped r.regrouped) := by
  rw [regrouped, if_neg h]

/-- Induction along the grouping: an operator is loose when it leaves its left operand alone, and
tight when that is a negation that takes it. -/
@[elab_as_elim]
theorem regrouped_induction {motive : Expr → Prop} (e : Expr)
    (loose : ∀ n op l r, (∀ m e, l = .unary m .not e → op.level.rank < UnaryOp.not.level.rank) →
      motive l → motive r → motive (.binary n op l r))
    (tight : ∀ n op m e r, ¬op.level.rank < UnaryOp.not.level.rank →
      motive e → motive r → motive (.binary n op (.unary m .not e) r))
    (unary : ∀ n op e, motive e → motive (.unary n op e))
    (bool : ∀ n b, motive (.bool n b)) (int : ∀ n v, motive (.int n v))
    (var : ∀ n s, motive (.var n s)) (hole : ∀ n, motive (.hole n)) : motive e := by
  induction e using regrouped.induct with
  | case1 n op m e r h ihl ihr => exact loose n op _ r (fun _ _ _ => h) ihl ihr
  | case2 n op m e r h ihe ihr => exact tight n op m e r h ihe ihr
  | case3 n op l r h ihl ihr => exact loose n op l r (fun m e he => (h m e he).elim) ihl ihr
  | case4 n op e ih => exact unary n op e ih
  | case5 n b => exact bool n b
  | case6 n v => exact int n v
  | case7 n s => exact var n s
  | case8 n => exact hole n

/-! ## What regrouping keeps -/

theorem ints_regrouped (e : Expr) : e.regrouped.ints = e.ints := by
  induction e using regrouped_induction with
  | loose n op l r hop ihl ihr => rw [regrouped_of_loose hop, ints, ints, ihl, ihr]
  | tight n op m e r hop ihe ihr =>
    rw [regrouped_of_tight hop]
    simp only [ints, ihe, ihr]
  | unary n op e ih => exact ih
  | bool n b | int n v | var n s | hole n => rfl

/-! ## When a tree is its own grouping -/

theorem Readable.regrouped_eq_self {e : Expr} (h : e.Readable) : e.regrouped = e := by
  induction e with
  | binary n op l r ihl ihr => rw [regrouped_of_loose h.1, ihl h.2.1, ihr h.2.2]
  | unary n op e ih => rw [regrouped, ih h]
  | bool n b | int n v | var n s | hole n => rfl

/-- A tree that is not readable has a binary operator where its grouping has a negation. -/
theorem readable_of_bare_regrouped {e : Expr} (hw : e.Whole) (h : e.regrouped.bare = e.bare) :
    e.Readable := by
  induction e using regrouped_induction with
  | loose n op l r hop ihl ihr =>
    rw [regrouped_of_loose hop] at h
    simp only [bare, binary.injEq, true_and] at h
    exact ⟨hop, ihl hw.1 h.1, ihr hw.2 h.2⟩
  | tight n op m e r hop ihe ihr =>
    rw [regrouped_of_tight hop] at h
    cases h
  | unary n op e ih =>
    simp only [regrouped, bare, unary.injEq, true_and] at h
    exact ih hw h
  | bool n b | int n v | var n s => trivial
  | hole n => exact hw.elim

end Expr

namespace Block

theorem declNumbers_regrouped (b : Block) : b.regrouped.declNumbers = b.declNumbers := by
  induction b with
  | done => rfl
  | declare d rest ih => simp only [regrouped, declNumbers, ih]
  | assign a rest ih => exact ih
  | loop w body rest ihb ihr => simp only [regrouped, declNumbers, ihb, ihr]

theorem ints_regrouped (b : Block) : b.regrouped.ints = b.ints := by
  induction b with
  | done => rfl
  | declare d rest ih => simp only [regrouped, ints, Expr.ints_regrouped, ih]
  | assign a rest ih => simp only [regrouped, ints, Expr.ints_regrouped, ih]
  | loop w body rest ihb ihr => simp only [regrouped, ints, Expr.ints_regrouped, ihb, ihr]

theorem Readable.regrouped_eq_self {b : Block} (h : b.Readable) : b.regrouped = b := by
  induction b with
  | done => rfl
  | declare d rest ih => rw [regrouped, h.1.regrouped_eq_self, ih h.2.2]
  | assign a rest ih => rw [regrouped, h.1.regrouped_eq_self, ih h.2]
  | loop w body rest ihb ihr =>
    rw [regrouped, h.1.regrouped_eq_self, ihb h.2.1, ihr h.2.2]

theorem readable_of_bare_regrouped {b : Block} (hw : b.Whole) (h : b.regrouped.bare = b.bare) :
    b.Readable := by
  induction b with
  | done => trivial
  | declare d rest ih =>
    simp only [regrouped, bare, Declaration.bare, declare.injEq, Declaration.mk.injEq,
      true_and] at h
    exact ⟨Expr.readable_of_bare_regrouped hw.1 h.1, hw.2.1, ih hw.2.2.2 h.2⟩
  | assign a rest ih =>
    simp only [regrouped, bare, Assignment.bare, assign.injEq, Assignment.mk.injEq, true_and] at h
    exact ⟨Expr.readable_of_bare_regrouped hw.1 h.1, ih hw.2.2 h.2⟩
  | loop w body rest ihb ihr =>
    simp only [regrouped, bare, LoopHead.bare, loop.injEq, LoopHead.mk.injEq, true_and,
      and_true] at h
    exact ⟨Expr.readable_of_bare_regrouped hw.1 h.1, ihb hw.2.1 h.2.1, ihr hw.2.2 h.2.2⟩

end Block

namespace Program

theorem ints_regrouped (p : Program) : p.regrouped.ints = p.ints := by
  simp only [regrouped, ints, Block.ints_regrouped, Expr.ints_regrouped]

theorem Readable.regrouped_eq_self {p : Program} (h : p.Readable) : p.regrouped = p := by
  rw [regrouped, h.1.regrouped_eq_self, h.2.regrouped_eq_self]

/-- **A whole tree is its own grouping exactly when no negation is in the way of an operator.** -/
theorem bare_regrouped_iff {p : Program} (hw : p.Whole) :
    p.regrouped.bare = p.bare ↔ p.Readable := by
  constructor
  · intro h
    simp only [regrouped, bare, mk.injEq, true_and] at h
    exact ⟨Block.readable_of_bare_regrouped hw.1 h.1, Expr.readable_of_bare_regrouped hw.2 h.2⟩
  · intro h
    rw [h.regrouped_eq_self]

end Program

/-! ## Well-typed trees -/

theorem Expr.HasTy.readable {Γ : Context} {e : Expr} {ty : Ty} (h : e.HasTy Γ ty) :
    e.Readable := by
  induction h with
  | @binary n op l r hl _ ihl ihr =>
    refine ⟨?_, ihl, ihr⟩
    rintro n' e' rfl
    -- the negation is a truth value, so the operator is a connective
    cases op with
    | and | or => decide
    | _ => cases hl
  | unary _ ih => exact ih
  | bool | int | var => trivial

theorem Block.WellTyped.readable {Γ Γ' : Context} {b : Block} (h : b.WellTyped Γ Γ')
    (hw : b.Whole) : b.Readable := by
  induction h with
  | done => trivial
  | declare hinit _ _ ih => exact ⟨hinit.readable, hw.2.1, ih hw.2.2.2⟩
  | assign _ hv _ ih => exact ⟨hv.readable, ih hw.2.2⟩
  | loop hc _ _ ihb ihr => exact ⟨hc.readable, ihb hw.2.1, ihr hw.2.2⟩

theorem Program.WellTyped.readable {p : Program} {ty : Ty} (h : p.WellTyped ty) (hw : p.Whole) :
    p.Readable := by
  obtain ⟨Γ, hb, hr⟩ := h
  exact ⟨hb.readable hw.1, hr.readable⟩

end WhileLang
