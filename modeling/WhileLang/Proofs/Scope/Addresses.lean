import WhileLang.Tree.Basic

/-!
# `WhileLang/Proofs/Scope/Addresses.lean` — which declaration a name means, by where it stands

A statement has an address: its index in its list, after the indices of the loops around it. What a
name means at an address is said here **of the tree alone, with no scope that grows and shrinks**:
the first declaration of the name among the statements before the address in its own list, and else
the same for the loop around it (`Block.visible`).

All uses of names in a program are listed with the address of the statement they stand in, and so
are all declarations. A condition and a first value stand in the statement they belong to, so they
see what comes before it and not what it declares or contains.
-/

set_option autoImplicit false

namespace WhileLang

/-- The index of a statement in its list, after those of the loops around it from the outside in. -/
abbrev Address := List Nat

namespace Block

/-! ## What stands before an address -/

/-- The declarations among the first `n` statements, in source order. -/
def declaredIn : Nat → Block → List Declaration
  | 0, _ => []
  | _ + 1, .done => []
  | n + 1, .declare d rest => d :: rest.declaredIn n
  | n + 1, .assign _ rest => rest.declaredIn n
  | n + 1, .loop _ _ rest => rest.declaredIn n

/-- The body of the statement with this index, if it is a loop. -/
def bodyAt? : Nat → Block → Option Block
  | _, .done => none
  | 0, .declare _ _ => none
  | 0, .assign _ _ => none
  | 0, .loop _ body _ => some body
  | n + 1, .declare _ rest => rest.bodyAt? n
  | n + 1, .assign _ rest => rest.bodyAt? n
  | n + 1, .loop _ _ rest => rest.bodyAt? n

/-- The declarations before an address in each of the lists around it, from the inside out. -/
def before : Address → Block → List (List Declaration)
  | [], _ => []
  | n :: inner, b => (b.bodyAt? n).elim [] (·.before inner) ++ [b.declaredIn n]

/-- The declaration that a name means at an address. -/
def visible (b : Block) (a : Address) (x : String) : Option Declaration :=
  (b.before a).findSome? fun ds => ds.find? (·.symbol.name = x)

/-- The first declaration of the name before the address, in the list of the address itself. -/
def earlier (b : Block) (a : Address) (x : String) : Option Declaration :=
  ((b.before a).headD []).find? (·.symbol.name = x)

end Block

/-! ## Uses and declarations, with their addresses -/

/-- A name that is read or assigned to. -/
structure Use where
  /-- The statement it stands in. -/
  address : Address
  node : NodeId
  symbol : Symbol
deriving DecidableEq, Repr

/-- The node and the symbol of a variable. -/
def Expr.var? : Expr → Option (NodeId × Symbol)
  | .var n s => some (n.id, s)
  | _ => none

/-- The variables in an expression. -/
def Expr.vars (e : Expr) : List (NodeId × Symbol) := e.nodes.filterMap Expr.var?

def Expr.uses (a : Address) (e : Expr) : List Use :=
  e.vars.map fun v => ⟨a, v.1, v.2⟩

namespace Block

/-- The uses in a block the first statement of which is the one with index `n` in the body of the
loop at `outer`. -/
def uses (outer : Address) : Nat → Block → List Use
  | _, .done => []
  | n, .declare d rest => d.init.uses (outer ++ [n]) ++ rest.uses outer (n + 1)
  | n, .assign a rest =>
    a.value.uses (outer ++ [n]) ++ [⟨outer ++ [n], a.node.id, a.symbol⟩] ++
      rest.uses outer (n + 1)
  | n, .loop w body rest =>
    w.cond.uses (outer ++ [n]) ++ body.uses (outer ++ [n]) 0 ++ rest.uses outer (n + 1)

/-- The declarations in such a block. -/
def declared (outer : Address) : Nat → Block → List (Address × Declaration)
  | _, .done => []
  | n, .declare d rest => (outer ++ [n], d) :: rest.declared outer (n + 1)
  | n, .assign _ rest => rest.declared outer (n + 1)
  | n, .loop _ body rest => body.declared (outer ++ [n]) 0 ++ rest.declared outer (n + 1)

/-- Whether the name means nothing where it stands. -/
def lacks (b : Block) (u : Use) : Bool :=
  u.symbol.isError = false ∧ b.visible u.address u.symbol.name = none

/-- A declaration and the first one of its name before it in its list, if there is one. -/
def repeats? (b : Block) (entry : Address × Declaration) : Option (Declaration × Declaration) :=
  if entry.2.symbol.isError then none
  else (b.earlier entry.1 entry.2.symbol.name).map (entry.2, ·)

end Block

namespace Program

/-- The uses in a program. Those in the result stand after all statements. -/
def uses (p : Program) : List Use :=
  p.body.uses [] 0 ++ p.result.uses [p.body.ids.length]

/-- The declaration that a name means at an address of the program. -/
def visible (p : Program) (a : Address) (x : String) : Option Declaration := p.body.visible a x

/-- The uses of names that mean nothing where they stand. -/
def unbound (p : Program) : List Use := p.uses.filter p.body.lacks

/-- The declarations of names that are declared already in the same list, each with the first
declaration of the name. -/
def redeclarations (p : Program) : List (Declaration × Declaration) :=
  (p.body.declared [] 0).filterMap p.body.repeats?

end Program

/-! ## On the way through a block -/

/-- On the way through the statements of `whole` what is left of a list is `b`, from index `n` on.
The declarations passed in it are `ds`, and `dss` are those passed in the lists around it. -/
def Block.Left (whole : Block) (outer : Address) (n : Nat) (b : Block) (ds : List Declaration)
    (dss : List (List Declaration)) : Prop :=
  ∀ k inner, whole.before (outer ++ (n + k) :: inner) =
    (b.bodyAt? k).elim [] (·.before inner) ++ (ds ++ b.declaredIn k) :: dss

namespace Block.Left

variable {whole body rest : Block} {outer : Address} {n : Nat} {ds : List Declaration}
variable {dss : List (List Declaration)}

theorem start (whole : Block) : whole.Left [] 0 whole [] [] := by
  intro k inner
  rw [List.nil_append, Nat.zero_add]
  rfl

/-- What was passed is what stands before. -/
theorem before_eq {b : Block} (h : whole.Left outer n b ds dss) :
    whole.before (outer ++ [n]) = ds :: dss := by
  have hb : (b.bodyAt? 0).elim [] (·.before []) = [] := by
    cases b.bodyAt? 0 <;> rfl
  have hd : b.declaredIn 0 = [] := by cases b <;> rfl
  simpa [hb, hd] using h 0 []

theorem declare {d : Declaration} (h : whole.Left outer n (.declare d rest) ds dss) :
    whole.Left outer (n + 1) rest (ds ++ [d]) dss := by
  intro k inner
  have hk := h (k + 1) inner
  rw [← Nat.add_assoc, Nat.add_right_comm] at hk
  rw [hk, List.append_assoc]
  rfl

theorem assign {a : Assignment} (h : whole.Left outer n (.assign a rest) ds dss) :
    whole.Left outer (n + 1) rest ds dss := by
  intro k inner
  have hk := h (k + 1) inner
  rw [← Nat.add_assoc, Nat.add_right_comm] at hk
  exact hk

theorem afterLoop {w : LoopHead} (h : whole.Left outer n (.loop w body rest) ds dss) :
    whole.Left outer (n + 1) rest ds dss := by
  intro k inner
  have hk := h (k + 1) inner
  rw [← Nat.add_assoc, Nat.add_right_comm] at hk
  exact hk

/-- In the body of a loop nothing was passed yet, and the list of the loop is one more around it. -/
theorem inBody {w : LoopHead} (h : whole.Left outer n (.loop w body rest) ds dss) :
    whole.Left (outer ++ [n]) 0 body [] (ds :: dss) := by
  intro k inner
  have hk := h 0 (k :: inner)
  rw [declaredIn, List.append_nil, Nat.add_zero] at hk
  rw [Nat.zero_add, List.append_assoc, List.singleton_append, hk, List.nil_append]
  show (body.bodyAt? k).elim [] (·.before inner) ++ [body.declaredIn k] ++ ds :: dss = _
  rw [List.append_assoc, List.singleton_append]

end Block.Left

/-! ## No use and no declaration is left out -/

theorem Expr.vars_binary (n : Node) (op : BinaryOp) (l r : Expr) :
    (binary n op l r).vars = l.vars ++ r.vars := by
  simp [vars, nodes, var?]

theorem Expr.vars_unary (n : Node) (op : UnaryOp) (e : Expr) : (unary n op e).vars = e.vars := by
  simp [vars, nodes, var?]

theorem Expr.map_uses (a : Address) (e : Expr) :
    (e.uses a).map (fun u => (u.node, u.symbol)) = e.vars := by
  simp [uses, Function.comp_def]

namespace Block

/-- The uses in a block are the variables and the targets of assignments, each once. -/
theorem perm_map_uses (outer : Address) (n : Nat) (b : Block) :
    ((b.uses outer n).map fun u => (u.node, u.symbol)).Perm
      (b.exprs.filterMap Expr.var? ++ b.assignments.map fun a => (a.node.id, a.symbol)) := by
  rw [List.perm_iff_count]
  intro v
  induction b generalizing outer n with
  | done => rfl
  | declare d rest ih =>
    simp only [List.count_append] at ih
    simp only [uses, exprs, assignments, List.map_append, Expr.map_uses, List.filterMap_append,
      List.count_append, ih, Expr.vars]
    omega
  | assign a rest ih =>
    simp only [List.count_append] at ih
    simp only [uses, exprs, assignments, List.map_append, List.map_cons, List.map_nil,
      Expr.map_uses, List.filterMap_append, List.count_append, List.count_cons, List.count_nil, ih,
      Expr.vars]
    omega
  | loop w body rest ihb ihr =>
    simp only [List.count_append] at ihb ihr
    simp only [uses, exprs, assignments, List.map_append, Expr.map_uses, List.filterMap_append,
      List.count_append, ihb, ihr, Expr.vars]
    omega

/-- Each declaration of a block has one address. -/
theorem map_snd_declared (outer : Address) (n : Nat) (b : Block) :
    (b.declared outer n).map (·.2) = b.declarations := by
  induction b generalizing outer n with
  | done => rfl
  | declare d rest ih => simp [declared, declarations, ih]
  | assign a rest ih => simp [declared, declarations, ih]
  | loop w body rest ihb ihr => simp [declared, declarations, ihb, ihr]

end Block

/-- The uses in a program are its variables and the targets of its assignments, each once. -/
theorem Program.perm_map_uses (p : Program) :
    (p.uses.map fun u => (u.node, u.symbol)).Perm
      (p.exprs.filterMap Expr.var? ++ p.body.assignments.map fun a => (a.node.id, a.symbol)) := by
  rw [uses, exprs, List.map_append, List.filterMap_append, Expr.map_uses, List.append_assoc]
  refine ((Block.perm_map_uses [] 0 p.body).append_right _).trans ?_
  rw [List.append_assoc]
  exact List.perm_append_comm.append_left _

end WhileLang
