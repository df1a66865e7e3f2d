import WhileLang.Proofs.Evaluation.Rounds

/-!
# `WhileLang/Proofs/Evaluation/Operations.lean` — the operations that a run performs

Integers wrap, and whoever compares the run with arithmetic of another kind asks whether any did.
So this file says which expressions a run evaluates and with which store (`Block.Evaluates`), and
lists for an expression **what its operations come to before they are reduced to 64 bits**
(`Expr.exactResults`).

A second list is about C (`Expr.intResults`). There an operation on two constants of at most 31 bits
is done in 32 bits, whatever becomes of its result, and the second operand of a connective is left
alone when the first decides. The list has the exact results of those operations of 32 bits that are
reached.
-/

set_option autoImplicit false

namespace WhileLang

/-! ## Expressions -/

/-- A word of 32 bits has the integer. -/
def Within32 (n : Int) : Prop := -2147483648 ≤ n ∧ n ≤ 2147483647

/-- A word of 64 bits has the integer. -/
def Within64 (n : Int) : Prop := -9223372036854775808 ≤ n ∧ n ≤ 9223372036854775807

instance (n : Int) : Decidable (Within32 n) := inferInstanceAs (Decidable (_ ∧ _))

instance (n : Int) : Decidable (Within64 n) := inferInstanceAs (Decidable (_ ∧ _))

theorem within64_toInt (v : Int64) : Within64 v.toInt :=
  ⟨v.le_toInt, Int.le_of_lt_add_one v.toInt_lt⟩

/-- A number that a word has is not reduced. -/
theorem Within64.bmod_eq {n : Int} (h : Within64 n) : n.bmod 18446744073709551616 = n :=
  Int.bmod_eq_of_le h.1 (Int.lt_add_one_of_le h.2)

/-- The sum, difference or product of two integers. -/
def BinaryOp.exact : BinaryOp → Except RunFault Value → Except RunFault Value → List Int
  | .add, .ok (.int a), .ok (.int b) => [a.toInt + b.toInt]
  | .sub, .ok (.int a), .ok (.int b) => [a.toInt - b.toInt]
  | .mul, .ok (.int a), .ok (.int b) => [a.toInt * b.toInt]
  | _, _, _ => []

/-- The negative of an integer. -/
def UnaryOp.exact : UnaryOp → Except RunFault Value → List Int
  | .neg, .ok (.int a) => [-a.toInt]
  | _, _ => []

/-- Whether the first operand of a connective decides its value. -/
def BinaryOp.decided : BinaryOp → Except RunFault Value → Bool
  | .and, .ok (.bool a) => !a
  | .or, .ok (.bool a) => a
  | _, _ => false

namespace Expr

/-- The exact results of the sums, differences, products and negatives that are computed with an
expression. -/
def exactResults (ann : Annotations) (store : Store) : Expr → List Int
  | .binary _ op l r =>
    l.exactResults ann store ++ r.exactResults ann store ++
      op.exact (l.eval ann store) (r.eval ann store)
  | .unary _ op e => e.exactResults ann store ++ op.exact (e.eval ann store)
  | .bool _ _ | .int _ _ | .var _ _ | .hole _ => []

/-- Whether an arithmetic expression is made of literals of at most 31 bits. -/
def isNarrow : Expr → Bool
  | .binary _ _ l r => l.isNarrow && r.isNarrow
  | .unary _ _ e => e.isNarrow
  | .int _ v => v.toInt.natAbs ≤ 2147483647
  | .bool _ _ | .var _ _ | .hole _ => false

/-- The exact results of the operations in narrow subexpressions, those in an operand apart that is
left alone because the one before it decides. -/
def intResults (ann : Annotations) (store : Store) : Expr → List Int
  | .binary _ op l r =>
    l.intResults ann store ++
      (if op.decided (l.eval ann store) then [] else r.intResults ann store) ++
      (if l.isNarrow && r.isNarrow then op.exact (l.eval ann store) (r.eval ann store) else [])
  | .unary _ op e =>
    e.intResults ann store ++ (if e.isNarrow then op.exact (e.eval ann store) else [])
  | .bool _ _ | .int _ _ | .var _ _ | .hole _ => []

/-- No operation leaves the range of 64 bits. -/
def Exact (ann : Annotations) (e : Expr) (store : Store) : Prop :=
  ∀ n ∈ e.exactResults ann store, Within64 n

/-- No operation of 32 bits leaves its range. -/
def FitsInt (ann : Annotations) (e : Expr) (store : Store) : Prop :=
  ∀ n ∈ e.intResults ann store, Within32 n

variable {ann : Annotations} {store : Store} {n : Node}

theorem exact_binary {op : BinaryOp} {l r : Expr} :
    (Expr.binary n op l r).Exact ann store ↔ l.Exact ann store ∧ r.Exact ann store ∧
      ∀ k ∈ op.exact (l.eval ann store) (r.eval ann store), Within64 k := by
  simp only [Exact, exactResults, List.forall_mem_append, and_assoc]

theorem exact_unary {op : UnaryOp} {e : Expr} :
    (Expr.unary n op e).Exact ann store ↔ e.Exact ann store ∧
      ∀ k ∈ op.exact (e.eval ann store), Within64 k := by
  simp only [Exact, exactResults, List.forall_mem_append]

end Expr

/-! ## Runs -/

namespace Block

/-- A run of the block from the first store evaluates the expression with the second one. -/
inductive Evaluates (ann : Annotations) : Block → Store → Expr → Store → Prop where
  | init {d : Declaration} {rest : Block} {s : Store} :
    Evaluates ann (.declare d rest) s d.init s
  | declare {d : Declaration} {rest : Block} {s s' : Store} {v : Value} {e : Expr} :
    d.init.eval ann s = .ok v → Evaluates ann rest (s.insert d.decl.index v) e s' →
    Evaluates ann (.declare d rest) s e s'
  | value {a : Assignment} {rest : Block} {s : Store} :
    Evaluates ann (.assign a rest) s a.value s
  | assign {a : Assignment} {rest : Block} {s s' : Store} {v : Value} {d : DeclId} {e : Expr} :
    a.value.eval ann s = .ok v → ann.resolve a.node.id a.symbol.name = .ok d →
    Evaluates ann rest (s.insert d.index v) e s' → Evaluates ann (.assign a rest) s e s'
  | cond {w : LoopHead} {body rest : Block} {s : Store} :
    Evaluates ann (.loop w body rest) s w.cond s
  | round {w : LoopHead} {body rest : Block} {s s' : Store} {e : Expr} :
    w.cond.holds ann s = .ok true → Evaluates ann body s e s' →
    Evaluates ann (.loop w body rest) s e s'
  | again {w : LoopHead} {body rest : Block} {s s₁ s' : Store} {bound : Nat} {e : Expr} :
    w.cond.holds ann s = .ok true → body.run ann bound s = pure s₁ →
    Evaluates ann (.loop w body rest) s₁ e s' → Evaluates ann (.loop w body rest) s e s'
  | loop {w : LoopHead} {body rest : Block} {s s' : Store} {e : Expr} :
    w.cond.holds ann s = .ok false → Evaluates ann rest s e s' →
    Evaluates ann (.loop w body rest) s e s'

/-- Everything that a run of the block evaluates has the property. -/
def Always (ann : Annotations) (P : Expr → Store → Prop) (b : Block) (s : Store) : Prop :=
  ∀ e s', b.Evaluates ann s e s' → P e s'

variable {ann : Annotations} {P : Expr → Store → Prop} {s : Store}

theorem always_done : Always ann P .done s := by
  intro e s' h
  cases h

theorem always_declare {d : Declaration} {rest : Block} {v : Value}
    (hv : d.init.eval ann s = .ok v) :
    Always ann P (.declare d rest) s ↔
      P d.init s ∧ Always ann P rest (s.insert d.decl.index v) := by
  constructor
  · intro h
    exact ⟨h _ _ .init, fun e s' he => h _ _ (.declare hv he)⟩
  · rintro ⟨hinit, hrest⟩ e s' h
    cases h with
    | init => exact hinit
    | declare hv' he =>
      obtain rfl := Except.ok.inj (hv.symm.trans hv')
      exact hrest _ _ he

theorem always_assign {a : Assignment} {rest : Block} {v : Value} {d : DeclId}
    (hv : a.value.eval ann s = .ok v) (hd : ann.resolve a.node.id a.symbol.name = .ok d) :
    Always ann P (.assign a rest) s ↔ P a.value s ∧ Always ann P rest (s.insert d.index v) := by
  constructor
  · intro h
    exact ⟨h _ _ .value, fun e s' he => h _ _ (.assign hv hd he)⟩
  · rintro ⟨hvalue, hrest⟩ e s' h
    cases h with
    | value => exact hvalue
    | assign hv' hd' he =>
      obtain rfl := Except.ok.inj (hv.symm.trans hv')
      obtain rfl := Except.ok.inj (hd.symm.trans hd')
      exact hrest _ _ he

theorem always_loop_of_not {w : LoopHead} {body rest : Block}
    (hc : w.cond.holds ann s = .ok false) :
    Always ann P (.loop w body rest) s ↔ P w.cond s ∧ Always ann P rest s := by
  constructor
  · intro h
    exact ⟨h _ _ .cond, fun e s' he => h _ _ (.loop hc he)⟩
  · rintro ⟨hcond, hrest⟩ e s' h
    cases h with
    | cond => exact hcond
    | loop _ he => exact hrest _ _ he
    | round hc' _ | again hc' _ _ => simp [hc] at hc'

/-- Which bound a round was run with makes no difference. -/
theorem run_unique {body : Block} {bound bound' : Nat} {s₁ s₁' : Store}
    (h : body.run ann bound s = pure s₁) (h' : body.run ann bound' s = pure s₁') : s₁ = s₁' := by
  have hle : body.run ann (max bound bound') s = pure s₁ := by
    rcases body.run_upto ann (Nat.le_max_left bound bound') s with hu | hu
    · rw [h] at hu
      cases hu
    · rw [← hu, h]
  rcases body.run_upto ann (Nat.le_max_right bound bound') s with hu | hu
  · rw [h'] at hu
    cases hu
  · rw [h', hle] at hu
    cases hu
    rfl

theorem always_loop_of_round {w : LoopHead} {body rest : Block} {bound : Nat} {s₁ : Store}
    (hc : w.cond.holds ann s = .ok true) (hb : body.run ann bound s = pure s₁) :
    Always ann P (.loop w body rest) s ↔
      P w.cond s ∧ Always ann P body s ∧ Always ann P (.loop w body rest) s₁ := by
  constructor
  · intro h
    exact ⟨h _ _ .cond, fun e s' he => h _ _ (.round hc he), fun e s' he => h _ _ (.again hc hb he)⟩
  · rintro ⟨hcond, hbody, hagain⟩ e s' h
    cases h with
    | cond => exact hcond
    | round _ he => exact hbody _ _ he
    | again _ hb' he =>
      obtain rfl := run_unique hb hb'
      exact hagain _ _ he
    | loop hc' _ => simp [hc] at hc'

end Block

namespace Program

/-- A run of the program evaluates the expression with the store. -/
def Evaluates (ann : Annotations) (p : Program) (e : Expr) (s : Store) : Prop :=
  p.body.Evaluates ann .empty e s ∨
    e = p.result ∧ ∃ bound, p.body.run ann bound .empty = pure s

theorem forall_evaluates {ann : Annotations} {P : Expr → Store → Prop} {p : Program} {bound : Nat}
    {s : Store} (h : p.body.run ann bound .empty = pure s) :
    (∀ e s', p.Evaluates ann e s' → P e s') ↔ p.body.Always ann P .empty ∧ P p.result s := by
  constructor
  · intro hall
    exact ⟨fun e s' he => hall e s' (.inl he), hall _ _ (.inr ⟨rfl, bound, h⟩)⟩
  · rintro ⟨hbody, hresult⟩ e s' (he | ⟨rfl, bound', h'⟩)
    · exact hbody _ _ he
    · obtain rfl := Block.run_unique h h'
      exact hresult

/-- A program without statements evaluates its result, and nothing else. -/
theorem forall_evaluates_of_done {ann : Annotations} {P : Expr → Store → Prop} {p : Program}
    (h : p.body = .done) : (∀ e s', p.Evaluates ann e s' → P e s') ↔ P p.result .empty := by
  have hrun : p.body.run ann 0 .empty = pure .empty := by
    rw [h]
    rfl
  rw [forall_evaluates hrun, h]
  exact and_iff_right Block.always_done

end Program

end WhileLang
