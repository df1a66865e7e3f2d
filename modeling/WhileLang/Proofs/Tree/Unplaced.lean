import WhileLang.Proofs.Tree.Signed

/-!
# `WhileLang/Proofs/Tree/Unplaced.lean` — trees without their places

A tree is unplaced when all its stretches of source are set to one. **Its numbers stay**, those of
nodes and those of declarations, since the tables of the checker are kept under them. What is
printed of a tree does not show places.
-/

set_option autoImplicit false

namespace WhileLang

def Symbol.unplaced (s : Symbol) : Symbol := { s with span := default }

def Node.unplaced (n : Node) : Node := { n with span := default }

def Expr.unplaced : Expr → Expr
  | .binary n op l r => .binary n.unplaced op l.unplaced r.unplaced
  | .unary n op e => .unary n.unplaced op e.unplaced
  | .bool n b => .bool n.unplaced b
  | .int n v => .int n.unplaced v
  | .var n s => .var n.unplaced s.unplaced
  | .hole n => .hole n.unplaced

def Declaration.unplaced (d : Declaration) : Declaration :=
  ⟨d.node.unplaced, d.decl, d.ty, d.symbol.unplaced, d.init.unplaced⟩

def Assignment.unplaced (a : Assignment) : Assignment :=
  ⟨a.node.unplaced, a.symbol.unplaced, a.value.unplaced⟩

def LoopHead.unplaced (w : LoopHead) : LoopHead :=
  ⟨w.node.unplaced, w.cond.unplaced, default⟩

def Block.unplaced : Block → Block
  | .done => .done
  | .declare d rest => .declare d.unplaced rest.unplaced
  | .assign a rest => .assign a.unplaced rest.unplaced
  | .loop w body rest => .loop w.unplaced body.unplaced rest.unplaced

def Program.unplaced (p : Program) : Program :=
  ⟨default, default, p.body.unplaced, p.result.unplaced⟩

@[simp] theorem Expr.node_unplaced (e : Expr) : e.unplaced.node = e.node.unplaced := by
  cases e <;> rfl

@[simp] theorem Expr.id_unplaced (e : Expr) : e.unplaced.id = e.id := by
  rw [id, node_unplaced, id]
  rfl

@[simp] theorem Expr.span_unplaced (e : Expr) : e.unplaced.span = default := by
  rw [span, node_unplaced]
  rfl

@[simp] theorem Block.isEmpty_unplaced (b : Block) : b.unplaced.isEmpty = b.isEmpty := by
  cases b <;> rfl

/-! ## Texts -/

theorem Expr.bare_unplaced (e : Expr) : e.unplaced.bare = e.bare := by
  induction e with
  | binary n op l r ihl ihr => rw [unplaced, bare, ihl, ihr, bare]
  | unary n op e ih => rw [unplaced, bare, ih, bare]
  | bool n b | int n v | var n s | hole n => rfl

theorem Block.shape_unplaced (b : Block) : b.unplaced.shape = b.shape := by
  induction b with
  | done => rfl
  | declare d rest ih =>
    simp only [unplaced, shape, Declaration.unplaced, Declaration.bare, Expr.bare_unplaced, ih]
    rfl
  | assign a rest ih =>
    simp only [unplaced, shape, Assignment.unplaced, Assignment.bare, Expr.bare_unplaced, ih]
    rfl
  | loop w body rest ihb ihr =>
    simp only [unplaced, shape, LoopHead.unplaced, LoopHead.bare, Expr.bare_unplaced, ihb, ihr]

/-- The canonical text is decided by the shape, and the shape has no places. -/
theorem Program.text_unplaced (p : Program) (indent : Indent) :
    p.unplaced.text indent = p.text indent := by
  have hshape : p.unplaced.shape = p.shape := by
    simp only [shape, unplaced, Block.shape_unplaced, Expr.bare_unplaced]
  rw [← text_shape, hshape, text_shape]

end WhileLang
