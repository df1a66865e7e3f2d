import WhileLang.Proofs.Tree.Numbers

/-!
# `WhileLang/Proofs/Tree/Shape.lean` — trees without their places and numbers

Two texts may say the same in different places, and then their trees differ in spans and in the
numbers of nodes. A tree is **bare** when both are taken away; equality up to spans and node numbers
is equality of bare trees. The numbers of declarations stay, since they are what a variable is.

The **shape** of a block forgets those too. Both trees of a comparison get them from counters, so
they are equal as soon as the shapes are (`Block.bare_eq_of_shape_eq`).
-/

set_option autoImplicit false

namespace WhileLang

/-- A node of which nothing is known. -/
def Node.bare : Node := ⟨⟨0⟩, default⟩

/-- A symbol at no place. -/
def Symbol.bare (s : Symbol) : Symbol := ⟨s.name, default⟩

def Expr.bare : Expr → Expr
  | .binary _ op l r => .binary .bare op l.bare r.bare
  | .unary _ op e => .unary .bare op e.bare
  | .bool _ b => .bool .bare b
  | .int _ v => .int .bare v
  | .var _ s => .var .bare s.bare
  | .hole _ => .hole .bare

def Declaration.bare (d : Declaration) : Declaration :=
  ⟨.bare, d.decl, d.ty, d.symbol.bare, d.init.bare⟩

def Assignment.bare (a : Assignment) : Assignment :=
  ⟨.bare, a.symbol.bare, a.value.bare⟩

def LoopHead.bare (w : LoopHead) : LoopHead :=
  ⟨.bare, w.cond.bare, default⟩

namespace Block

def bare : Block → Block
  | .done => .done
  | .declare d rest => .declare d.bare rest.bare
  | .assign a rest => .assign a.bare rest.bare
  | .loop w body rest => .loop w.bare body.bare rest.bare

/-- The bare block, in which all declarations have one number. -/
def shape : Block → Block
  | .done => .done
  | .declare d rest => .declare { d.bare with decl := ⟨0⟩ } rest.shape
  | .assign a rest => .assign a.bare rest.shape
  | .loop w body rest => .loop w.bare body.shape rest.shape

end Block

namespace Program

def bare (p : Program) : Program :=
  ⟨default, default, p.body.bare, p.result.bare⟩

def shape (p : Program) : Program :=
  ⟨default, default, p.body.shape, p.result.bare⟩

end Program

/-! ## What the shape decides -/

theorem Expr.length_numbers_bare (e : Expr) : e.bare.numbers.length = e.numbers.length := by
  induction e with
  | binary n op l r ihl ihr => simp [bare, numbers, ihl, ihr]
  | unary n op e ih => simp [bare, numbers, ih]
  | _ => rfl

namespace Block

theorem length_numbers_shape (b : Block) : b.shape.numbers.length = b.numbers.length := by
  induction b with
  | done => rfl
  | declare d rest ih =>
    simp [shape, numbers, ih, Declaration.bare, Expr.length_numbers_bare]
  | assign a rest ih => simp [shape, numbers, ih, Assignment.bare, Expr.length_numbers_bare]
  | loop w body rest ihb ihr =>
    simp [shape, numbers, ihb, ihr, LoopHead.bare, Expr.length_numbers_bare]

theorem length_declNumbers_shape (b : Block) :
    b.shape.declNumbers.length = b.declNumbers.length := by
  induction b with
  | done => rfl
  | declare d rest ih => simp [shape, declNumbers, ih]
  | assign a rest ih => exact ih
  | loop w body rest ihb ihr => simp [shape, declNumbers, ihb, ihr]

theorem bare_eq_of_shape_eq {b b' : Block} (h : b.shape = b'.shape)
    (hd : b.declNumbers = b'.declNumbers) : b.bare = b'.bare := by
  induction b generalizing b' with
  | done => cases b' <;> first | rfl | simp [shape] at h
  | declare d rest ih =>
    cases b' with
    | declare d' rest' =>
      simp only [shape, declare.injEq] at h
      simp only [declNumbers, List.cons.injEq] at hd
      have hdecl : d.decl = d'.decl := congrArg DeclId.mk hd.1
      simp only [bare, declare.injEq, ih h.2 hd.2, and_true]
      simp only [Declaration.bare, Declaration.mk.injEq, hdecl, true_and] at h ⊢
      exact h.1
    | _ => simp [shape] at h
  | assign a rest ih =>
    cases b' with
    | assign a' rest' =>
      simp only [shape, assign.injEq] at h
      simp only [bare, assign.injEq]
      exact ⟨h.1, ih h.2 hd⟩
    | _ => simp [shape] at h
  | loop w body rest ihb ihr =>
    cases b' with
    | loop w' body' rest' =>
      simp only [shape, loop.injEq] at h
      obtain ⟨hw, hb, hr⟩ := h
      -- bodies of one shape have equally many declarations, so the numbers divide at one place
      have hlen : body.declNumbers.length = body'.declNumbers.length := by
        rw [← length_declNumbers_shape, hb, length_declNumbers_shape]
      obtain ⟨hdb, hdr⟩ := List.append_inj hd hlen
      simp only [bare, loop.injEq]
      exact ⟨hw, ihb hb hdb, ihr hr hdr⟩
    | _ => simp [shape] at h

end Block

namespace Program

theorem length_numbers_shape (p : Program) : p.shape.numbers.length = p.numbers.length := by
  simp only [shape, numbers, List.length_append, Block.length_numbers_shape,
    Expr.length_numbers_bare]

theorem bare_eq_of_shape_eq {p p' : Program} (h : p.shape = p'.shape)
    (hd : p.body.declNumbers = p'.body.declNumbers) : p.bare = p'.bare := by
  simp only [shape, mk.injEq, true_and] at h
  simp only [bare, mk.injEq, true_and]
  exact ⟨Block.bare_eq_of_shape_eq h.1 hd, h.2⟩

end Program

end WhileLang
