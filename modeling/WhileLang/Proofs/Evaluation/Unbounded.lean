import Mathlib.Data.Int.ModEq
import WhileLang.Proofs.Evaluation.Rounds
import WhileLang.Proofs.Evaluation.Scoped
import WhileLang.Proofs.Token.Slices

/-!
# `WhileLang/Proofs/Evaluation/Unbounded.lean` — arithmetic over all integers

A program of sums, differences, products and signs can also be run over the integers, where nothing
wraps and **a literal is what its digits in the source denote** (`Program.unbounded`). Reducing an
integer to 64 bits commutes with every one of these operations, with binding a name and with
assigning to it; so the two runs go side by side, and the words of the one are the reduced integers
of the other (`Program.reduces_evalScoped`). Where a literal was reduced by the lexer and where a
result was reduced by an operation makes no difference.
-/

set_option autoImplicit false

namespace WhileLang

/-! ## Programs of arithmetic -/

/-- No operators are in the expression but sums, differences, products and signs, and no truth
values. -/
def Expr.isArithmetic : Expr → Bool
  | .binary _ op l r => op.opClass = .arithmetic && l.isArithmetic && r.isArithmetic
  | .unary _ op e => op ≠ .not && e.isArithmetic
  | .int _ _ | .var _ _ => true
  | .bool _ _ | .hole _ => false

/-- There are no loops, and all variables are integers. -/
def Block.isArithmetic : Block → Bool
  | .done => true
  | .declare d rest => d.ty = .int && d.init.isArithmetic && rest.isArithmetic
  | .assign a rest => a.value.isArithmetic && rest.isArithmetic
  | .loop _ _ _ => false

def Program.isArithmetic (p : Program) : Bool :=
  p.body.isArithmetic && p.result.isArithmetic

/-! ## The run over all integers -/

def BinaryOp.unbounded : BinaryOp → Int → Int → Option Int
  | .add, a, b => some (a + b)
  | .sub, a, b => some (a - b)
  | .mul, a, b => some (a * b)
  | _, _, _ => none

def UnaryOp.unbounded : UnaryOp → Int → Option Int
  | .plus, a => some a
  | .neg, a => some (-a)
  | .not, _ => none

/-- The integer that an expression has when nothing wraps. -/
def Expr.unbounded (source : Source) (env : Frames Int) : Expr → Option Int
  | .binary _ op l r => do
    let a ← l.unbounded source env
    let b ← r.unbounded source env
    op.unbounded a b
  | .unary _ op e => do
    let a ← e.unbounded source env
    op.unbounded a
  | .int n _ => source.decimal? n.span
  | .var _ s => env.read s.name
  | .bool _ _ | .hole _ => none

/-- The integers that the variables have after a block. -/
def Block.unbounded (source : Source) : Block → Frames Int → Option (Frames Int)
  | .done, env => some env
  | .declare d rest, env => do
    let z ← d.init.unbounded source env
    rest.unbounded source (env.bind d.symbol.name z)
  | .assign a rest, env => do
    let z ← a.value.unbounded source env
    let env ← env.write a.symbol.name z
    rest.unbounded source env
  | .loop _ _ _, _ => none

/-- The integer that a program returns when nothing wraps. -/
def Program.unbounded (source : Source) (p : Program) : Option Int := do
  let env ← p.body.unbounded source [[]]
  p.result.unbounded source env

/-! ## Reduction to words -/

/-- The value that an integer is reduced to. -/
def Value.ofInt (z : Int) : Value := .int (Int64.ofInt z)

/-- The values that the variables are reduced to. -/
def Env.ofInts (env : Frames Int) : Env := env.mapVal Value.ofInt

/-- A run over words fails, or comes to what that over the integers comes to, reduced by `f`. -/
inductive Bounded.Reduces {ε α β : Type} (f : α → β) : Bounded ε β → Option α → Prop
  | fault (e : ε) (y : Option α) : Reduces f (throw e) y
  | value (a : α) : Reduces f (pure (f a)) (some a)

namespace Bounded

variable {ε α β γ δ : Type}

theorem Reduces.bind {f : α → β} {g : γ → δ} {x : Bounded ε β} {y : Option α}
    {k : β → Bounded ε δ} {l : α → Option γ} (h : Reduces f x y)
    (hk : ∀ a, Reduces g (k (f a)) (l a)) : Reduces g (x >>= k) (y >>= l) := by
  cases h with
  | fault e y => exact .fault e _
  | value a => exact hk a

theorem ofExcept_bind (x : Except ε α) (k : α → Except ε β) :
    ofExcept (x >>= k) = ofExcept x >>= fun a => ofExcept (k a) := by
  cases x <;> rfl

end Bounded

open Bounded (Reduces)

/-! ## Reducing commutes with what a program does -/

/-- A sum of reduced integers is the sum, reduced, and so on. -/
theorem BinaryOp.reduces_apply {op : BinaryOp} (h : op.opClass = .arithmetic) (a b : Int) :
    Reduces Value.ofInt (Bounded.ofExcept (op.apply (.ofInt a) (.ofInt b)))
      (op.unbounded a b) := by
  cases op with
  | add =>
    show Reduces Value.ofInt (pure (.int (Int64.ofInt a + Int64.ofInt b))) (some (a + b))
    rw [← Int64.ofInt_add]
    exact .value (a + b)
  | sub =>
    show Reduces Value.ofInt (pure (.int (Int64.ofInt a - Int64.ofInt b))) (some (a - b))
    rw [← Int64.ofInt_sub]
    exact .value (a - b)
  | mul =>
    show Reduces Value.ofInt (pure (.int (Int64.ofInt a * Int64.ofInt b))) (some (a * b))
    rw [← Int64.ofInt_mul]
    exact .value (a * b)
  | eq | ne | lt | le | gt | ge | and | or => cases h

theorem UnaryOp.reduces_apply {op : UnaryOp} (h : op ≠ .not) (a : Int) :
    Reduces Value.ofInt (Bounded.ofExcept (op.apply (.ofInt a))) (op.unbounded a) := by
  cases op with
  | plus => exact .value a
  | neg =>
    show Reduces Value.ofInt (pure (.int (-Int64.ofInt a))) (some (-a))
    rw [← Int64.ofInt_neg]
    exact .value (-a)
  | not => exact absurd rfl h

/-- The integers of the expressions are what digits of the source denote. -/
def Spelled (source : Source) (es : List Expr) : Prop :=
  ∀ n v, .int n v ∈ es → ∃ z, source.decimal? n.span = some z ∧ Int64.ofInt z = v

theorem Spelled.of_append {source : Source} {es es' : List Expr} (h : Spelled source (es ++ es')) :
    Spelled source es ∧ Spelled source es' :=
  ⟨fun n v hv => h n v (List.mem_append_left _ hv),
    fun n v hv => h n v (List.mem_append_right _ hv)⟩

theorem Expr.reduces_evalScoped {source : Source} (env : Frames Int) {e : Expr}
    (ha : e.isArithmetic = true) (hs : Spelled source e.nodes) :
    Reduces Value.ofInt (Bounded.ofExcept (e.evalScoped (Env.ofInts env)))
      (e.unbounded source env) := by
  induction e with
  | binary n op l r ihl ihr =>
    simp only [isArithmetic, Bool.and_eq_true, decide_eq_true_eq] at ha
    obtain ⟨⟨hop, hal⟩, har⟩ := ha
    obtain ⟨hs, -⟩ := hs.of_append
    obtain ⟨hsl, hsr⟩ := hs.of_append
    rw [evalScoped, Bounded.ofExcept_bind]
    refine (ihl hal hsl).bind fun a => ?_
    rw [Bounded.ofExcept_bind]
    exact (ihr har hsr).bind fun b => BinaryOp.reduces_apply hop a b
  | unary n op e ih =>
    simp only [isArithmetic, Bool.and_eq_true, decide_eq_true_eq] at ha
    obtain ⟨hs, -⟩ := hs.of_append
    rw [evalScoped, Bounded.ofExcept_bind]
    exact (ih ha.2 hs).bind fun a => UnaryOp.reduces_apply ha.1 a
  | int n v =>
    obtain ⟨z, hz, rfl⟩ := hs n v (List.mem_singleton.2 rfl)
    rw [unbounded, hz]
    exact .value z
  | var n s =>
    rw [evalScoped, unbounded, Env.ofInts, Frames.read_mapVal]
    cases env.read s.name with
    | none => exact .fault _ _
    | some z => exact .value z
  | bool | hole => cases ha

theorem Env.reduces_assign (env : Frames Int) (s : Symbol) (z : Int) :
    Reduces Env.ofInts (Bounded.ofExcept (Env.assign (Env.ofInts env) s (.ofInt z)))
      (env.write s.name z) := by
  rw [assign, ofInts, Frames.write_mapVal]
  cases env.write s.name z with
  | none => exact .fault _ _
  | some env' => exact .value env'

/-- **The runs of a block of arithmetic go side by side**, and the one over words is not bounded by
anything. -/
theorem Block.reduces_runScoped {source : Source} (bound : Nat) (env : Frames Int) {b : Block}
    (ha : b.isArithmetic = true) (hs : Spelled source b.exprs) :
    Reduces Env.ofInts (b.runScoped bound (Env.ofInts env)) (b.unbounded source env) := by
  induction b generalizing env with
  | done => exact .value env
  | declare d rest ih =>
    simp only [isArithmetic, Bool.and_eq_true, decide_eq_true_eq] at ha
    obtain ⟨hsi, hsr⟩ := hs.of_append
    refine (Expr.reduces_evalScoped env ha.1.2 hsi).bind fun z => ?_
    have hbind : Frames.bind d.symbol.name (.ofInt z) (Env.ofInts env) =
        Env.ofInts (env.bind d.symbol.name z) := Frames.bind_mapVal ..
    rw [hbind]
    exact ih _ ha.2 hsr
  | assign a rest ih =>
    simp only [isArithmetic, Bool.and_eq_true] at ha
    obtain ⟨hsv, hsr⟩ := hs.of_append
    refine (Expr.reduces_evalScoped env ha.1 hsv).bind fun z => ?_
    exact (Env.reduces_assign env a.symbol z).bind fun env' => ih env' ha.2 hsr
  | loop w body rest => cases ha

/-- **The integers that a program of arithmetic comes to are, reduced, the words it comes to.** -/
theorem Program.reduces_evalScoped {source : Source} {p : Program} (bound : Nat)
    (ha : p.isArithmetic = true) (hs : Spelled source p.exprs) :
    Reduces Value.ofInt (p.evalScoped bound) (p.unbounded source) := by
  obtain ⟨hab, har⟩ := Bool.and_eq_true _ _ ▸ ha
  obtain ⟨hsb, hsr⟩ := hs.of_append
  exact (Block.reduces_runScoped bound [[]] hab hsb).bind fun env =>
    Expr.reduces_evalScoped env har hsr

/-! ## The word of an integer -/

/-- There is one word of 64 bits that is congruent to an integer, which is what it is reduced
to. -/
theorem toInt_modEq_iff (w : Int64) (z : Int) :
    w.toInt ≡ z [ZMOD 2 ^ 64] ↔ w = Int64.ofInt z := by
  rw [← Int64.toInt_inj, Int64.toInt_ofInt]
  have hle := w.le_toInt
  have hlt := w.toInt_lt
  have hsize : Int64.size = 18446744073709551616 := rfl
  rw [Int.ModEq, Int.bmod_def, hsize]
  omega

end WhileLang
