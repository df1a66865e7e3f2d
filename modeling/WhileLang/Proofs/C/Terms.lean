import WhileLang.Proofs.C.Machine
import WhileLang.Proofs.C.Parsed
import WhileLang.Proofs.Evaluation.Agreement
import WhileLang.Proofs.Evaluation.Operations

/-!
# `WhileLang/Proofs/C/Terms.lean` — the value of an expression in C

Where the exact results stay within 64 bits, an expression has in C the number that the evaluator
gives it, **unless an operation on literals leaves the 32 bits in which C does it**, and then the
value is not defined (`Expr.cTerm_eval`). What decides is a property of the expression alone: its
operands are literals of at most 31 bits just when C gives it the type `int`, and every other
integer has 64 bits in C too.

The second operand of a connective is evaluated here and left alone in C when the first one decides.
No value comes of that, and no effect, so only its overflow goes unnoticed.
-/

set_option autoImplicit false

namespace WhileLang.C

/-! ## Runs that may overflow -/

/-- The run ends with such an answer if the condition holds, and otherwise it overflows. -/
inductive OverflowsUnless {α : Type} (fits : Prop) (R : α → Prop) : Bounded Fault α → Prop where
  | answer {a : α} : fits → R a → OverflowsUnless fits R (pure a)
  | overflow : ¬fits → OverflowsUnless fits R (throw .overflow)

namespace OverflowsUnless

variable {α β : Type} {fits fits' : Prop} {R : α → Prop} {S : β → Prop} {x : Bounded Fault α}

theorem ok {y : Except Fault α} {a : α} (hy : y = .ok a) (h : fits) (hR : R a) :
    OverflowsUnless fits R (Bounded.ofExcept y) := by
  subst hy
  exact .answer h hR

theorem bind {f : α → Bounded Fault β} (h : OverflowsUnless fits R x)
    (hf : ∀ a, R a → OverflowsUnless fits' S (f a)) :
    OverflowsUnless (fits ∧ fits') S (x >>= f) := by
  cases h with
  | @answer a hfits ha =>
    rw [pure_bind]
    have hfa := hf a ha
    generalize f a = y at hfa ⊢
    cases hfa with
    | answer hfits' hb => exact .answer ⟨hfits, hfits'⟩ hb
    | overflow hfits' => exact .overflow fun h => hfits' h.2
  | overflow hfits => exact .overflow fun h => hfits h.1

/-- What comes afterwards cannot overflow. -/
theorem bind_ok {f : α → Bounded Fault β} (h : OverflowsUnless fits R x)
    (hf : ∀ a, R a → ∃ b, f a = pure b ∧ S b) : OverflowsUnless fits S (x >>= f) := by
  cases h with
  | answer hfits ha =>
    obtain ⟨b, hb, hS⟩ := hf _ ha
    rw [pure_bind, hb]
    exact .answer hfits hS
  | overflow hfits => exact .overflow hfits

theorem congr (h : OverflowsUnless fits R x) (hiff : fits' ↔ fits) : OverflowsUnless fits' R x := by
  rwa [propext hiff]

end OverflowsUnless

theorem ofExcept_bind {α β : Type} (x : Except Fault α) (f : α → Except Fault β) :
    Bounded.ofExcept (x >>= f) = Bounded.ofExcept x >>= fun a => Bounded.ofExcept (f a) := by
  cases x <;> rfl

/-! ## Types of 32 bits and of 64 -/

/-- The type that an integer gets: of 32 bits if it is made of small literals only. -/
def Ty.HasWidth (t : Ty) (narrow : Bool) : Prop :=
  if narrow then t = .int else t = .long ∨ t = .longLong

theorem Ty.HasWidth.promote {t : Ty} {narrow : Bool} (h : t.HasWidth narrow) : t.promote = t := by
  cases narrow with
  | true =>
    obtain rfl : t = .int := h
    rfl
  | false =>
    obtain rfl | rfl : t = .long ∨ t = .longLong := h <;> rfl

theorem Ty.HasWidth.ne_bool {t : Ty} {narrow : Bool} (h : t.HasWidth narrow) : t ≠ .bool := by
  rintro rfl
  cases narrow <;> simp [HasWidth] at h

theorem Ty.HasWidth.common {t u : Ty} {a b : Bool} (ht : t.HasWidth a) (hu : u.HasWidth b) :
    (t.common u).HasWidth (a && b) := by
  cases a <;> cases b <;> simp only [HasWidth, if_true, Bool.false_eq_true, if_false] at ht hu
  · rcases ht with rfl | rfl <;> rcases hu with rfl | rfl <;>
      simp [HasWidth, Ty.common, Ty.promote, rank]
  · subst hu
    rcases ht with rfl | rfl <;> simp [HasWidth, Ty.common, Ty.promote, rank]
  · subst ht
    rcases hu with rfl | rfl <;> simp [HasWidth, Ty.common, Ty.promote, rank]
  · subst ht hu
    simp [HasWidth, Ty.common, Ty.promote]

/-- Within 64 bits, only the types of 32 bits lack a number. -/
theorem Ty.HasWidth.fits_iff {t : Ty} {narrow : Bool} (h : t.HasWidth narrow) {n : Int}
    (hn : Within64 n) :
    t.Fits n ↔ (narrow = true → Within32 n) := by
  cases narrow with
  | true =>
    obtain rfl : t = .int := h
    exact ⟨fun hfits _ => hfits, fun hfits => hfits rfl⟩
  | false =>
    obtain rfl | rfl : t = .long ∨ t = .longLong := h <;> exact iff_of_true hn (by simp)

/-! ## Values -/

/-- The number that stands for a value in C. -/
def number : WhileLang.Value → Int
  | .int v => v.toInt
  | .bool b => if b then 1 else 0

/-- A value in C has the number of one of the evaluator's, and a type of the right kind. -/
def Value.StandsFor (w : Value) (narrow : Bool) (v : WhileLang.Value) : Prop :=
  w.n = number v ∧
    match v with
    | .int _ => w.ty.HasWidth narrow ∧ w.ty.Fits w.n
    | .bool _ => w.ty = .int ∨ w.ty = .bool

namespace Value.StandsFor

variable {w w₁ w₂ : Value} {narrow narrow₁ narrow₂ : Bool} {v : WhileLang.Value} {a b : Int64}

/-- A variable of the value's type takes the value. -/
theorem convert (h : w.StandsFor narrow v) : w.convert v.ty.cTy = .ok ⟨v.ty.cTy, number v⟩ := by
  obtain ⟨hn, h⟩ := h
  cases v with
  | int v =>
    have hfits : Ty.Fits .longLong v.toInt := within64_toInt v
    simp [Value.convert, hn, number, WhileLang.Value.ty, Ty.cTy, hfits]
  | bool b => cases b <;> simp [Value.convert, hn, number, WhileLang.Value.ty, Ty.cTy]

theorem of_variable (v : WhileLang.Value) : StandsFor ⟨v.ty.cTy, number v⟩ false v := by
  refine ⟨rfl, ?_⟩
  cases v with
  | int v => exact ⟨.inr rfl, within64_toInt v⟩
  | bool b => exact .inr rfl

theorem truth (b : Bool) : (Value.truth b).StandsFor narrow (.bool b) :=
  ⟨rfl, .inl rfl⟩

/-- Of integers an operator gets the numbers, in the common type. -/
theorem binary (h₁ : w₁.StandsFor narrow₁ (.int a)) (h₂ : w₂.StandsFor narrow₂ (.int b))
    (op : BinaryOp) :
    Value.binary op w₁ w₂ = operate (w₁.ty.common w₂.ty) a.toInt b.toInt op := by
  obtain ⟨t, n⟩ := w₁
  obtain ⟨u, m⟩ := w₂
  obtain ⟨rfl, ht, hn⟩ : n = a.toInt ∧ t.HasWidth narrow₁ ∧ t.Fits n := h₁
  obtain ⟨rfl, hu, hm⟩ : m = b.toInt ∧ u.HasWidth narrow₂ ∧ u.Fits m := h₂
  have hcommon := ht.common hu
  -- the common type is narrow only if both are, so it has the number of either
  have ha : (t.common u).Fits a.toInt := by
    rw [hcommon.fits_iff (within64_toInt a)]
    intro h
    exact (ht.fits_iff (within64_toInt a)).1 hn (Bool.and_eq_true_iff.1 h).1
  have hb : (t.common u).Fits b.toInt := by
    rw [hcommon.fits_iff (within64_toInt b)]
    intro h
    exact (hu.fits_iff (within64_toInt b)).1 hm (Bool.and_eq_true_iff.1 h).2
  simp only [Value.binary, Value.convert, hcommon.ne_bool, ha, hb, if_true, if_false]
  rfl

end Value.StandsFor

/-- An exact result is right, or the type does not have it. -/
theorem Value.arithmetic_overflowsUnless {t : Ty} {narrow : Bool} (ht : t.HasWidth narrow) {n : Int}
    (hn : Within64 n) {v : Int64} (hv : v.toInt = n.bmod 18446744073709551616) :
    OverflowsUnless (narrow = true → Within32 n) (·.StandsFor narrow (.int v))
      (Bounded.ofExcept (arithmetic t n)) := by
  rw [hn.bmod_eq] at hv
  rw [← ht.fits_iff hn, arithmetic]
  split
  · rename_i hfits
    exact .answer hfits ⟨hv.symm, ht, hfits⟩
  · rename_i hfits
    exact .overflow hfits

/-- A comparison never overflows. -/
theorem OverflowsUnless.compared {p q : Prop} [Decidable p] [Decidable q] (h : p ↔ q) {fits : Prop}
    (hfits : fits) {narrow : Bool} :
    OverflowsUnless fits (·.StandsFor narrow (.bool p))
      (Bounded.ofExcept (.ok (Value.truth q))) := by
  rw [decide_eq_decide.2 h]
  exact .answer hfits (.truth _)

/-- **An operator on integers** makes the value that the evaluator's makes, as long as the exact
result is within 64 bits, and, of two narrow operands, also within 32. -/
theorem Value.binary_overflowsUnless {op : BinaryOp} (hop : op.operand = .int) {w₁ w₂ : Value}
    {narrow₁ narrow₂ : Bool} {v₁ v₂ v : WhileLang.Value} (h₁ : w₁.StandsFor narrow₁ v₁)
    (h₂ : w₂.StandsFor narrow₂ v₂) (ht₁ : v₁.ty = .int) (ht₂ : v₂.ty = .int)
    (hv : op.apply v₁ v₂ = .ok v)
    (hexact : ∀ n ∈ op.exact (.ok v₁) (.ok v₂), Within64 n) :
    OverflowsUnless ((narrow₁ && narrow₂) = true →
        ∀ n ∈ op.exact (.ok v₁) (.ok v₂), Within32 n)
      (·.StandsFor (narrow₁ && narrow₂) v) (Bounded.ofExcept (Value.binary op w₁ w₂)) := by
  obtain ⟨a, rfl⟩ := Value.ty_eq_int.1 ht₁
  obtain ⟨b, rfl⟩ := Value.ty_eq_int.1 ht₂
  rw [h₁.binary h₂]
  have hty := h₁.2.1.common h₂.2.1
  cases op with
  | add =>
    obtain rfl := Except.ok.inj hv
    simp only [BinaryOp.exact, List.forall_mem_singleton] at hexact ⊢
    exact Value.arithmetic_overflowsUnless hty hexact (Int64.toInt_add a b)
  | sub =>
    obtain rfl := Except.ok.inj hv
    simp only [BinaryOp.exact, List.forall_mem_singleton] at hexact ⊢
    exact Value.arithmetic_overflowsUnless hty hexact (Int64.toInt_sub a b)
  | mul =>
    obtain rfl := Except.ok.inj hv
    simp only [BinaryOp.exact, List.forall_mem_singleton] at hexact ⊢
    exact Value.arithmetic_overflowsUnless hty hexact (Int64.toInt_mul a b)
  | eq =>
    obtain rfl := Except.ok.inj hv
    exact .compared Int64.toInt_inj.symm (by simp [BinaryOp.exact])
  | ne =>
    obtain rfl := Except.ok.inj hv
    exact .compared (not_congr Int64.toInt_inj.symm) (by simp [BinaryOp.exact])
  | lt | gt =>
    obtain rfl := Except.ok.inj hv
    exact .compared Int64.lt_iff_toInt_lt (by simp [BinaryOp.exact])
  | le | ge =>
    obtain rfl := Except.ok.inj hv
    exact .compared Int64.le_iff_toInt_le (by simp [BinaryOp.exact])
  | and | or => cases hop

theorem Value.unary_overflowsUnless {op : UnaryOp} {w : Value} {narrow : Bool}
    {v u : WhileLang.Value} (h : w.StandsFor narrow v) (ht : v.ty = op.operand)
    (hu : op.apply v = .ok u) (hexact : ∀ n ∈ op.exact (.ok v), Within64 n) :
    OverflowsUnless (narrow = true → ∀ n ∈ op.exact (.ok v), Within32 n)
      (·.StandsFor narrow u) (Bounded.ofExcept (Value.unary op w)) := by
  obtain ⟨t, n⟩ := w
  cases op with
  | plus =>
    obtain ⟨a, rfl⟩ := Value.ty_eq_int.1 ht
    obtain rfl := Except.ok.inj hu
    have hplus : Value.unary .plus ⟨t, n⟩ = .ok ⟨t, n⟩ := by
      rw [Value.unary, arithmetic, h.2.1.promote, if_pos h.2.2]
    exact .ok hplus (by simp [UnaryOp.exact]) h
  | neg =>
    obtain ⟨a, rfl⟩ := Value.ty_eq_int.1 ht
    obtain rfl := Except.ok.inj hu
    obtain ⟨rfl, hty, -⟩ := h
    simp only [UnaryOp.exact, List.forall_mem_singleton] at hexact ⊢
    rw [Value.unary, hty.promote]
    exact Value.arithmetic_overflowsUnless hty hexact (Int64.toInt_neg a)
  | not =>
    obtain ⟨b, rfl⟩ := Value.ty_eq_bool.1 ht
    obtain rfl := Except.ok.inj hu
    obtain ⟨rfl, -⟩ := h
    have hnot : Value.unary .not ⟨t, number (.bool b)⟩ = .ok (.truth !b) := by
      cases b <;> rfl
    exact .ok hnot (by simp [UnaryOp.exact]) (.truth _)

/-! ## Literals -/

theorem ofConstant?_int {n : Nat} (h : n ≤ 9223372036854775807) :
    Ty.ofConstant? .int n = some (if n ≤ 2147483647 then .int else .long) := by
  rw [Ty.ofConstant?]
  by_cases hn : n ≤ 2147483647
  · have hint : Ty.Fits .int n := ⟨by omega, by omega⟩
    rw [if_pos hn]
    exact List.find?_cons_of_pos (decide_eq_true ⟨Nat.le_refl _, hint⟩)
  · have hint : ¬Ty.Fits .int n := fun hfits => hn (by have := hfits.2; omega)
    have hlong : Ty.Fits .long n := ⟨by omega, by omega⟩
    rw [if_neg hn, List.find?_cons_of_neg (by simp [hint])]
    exact List.find?_cons_of_pos (decide_eq_true ⟨by decide, hlong⟩)

theorem hasWidth_constant (n : Nat) :
    Ty.HasWidth (if n ≤ 2147483647 then .int else .long) (n ≤ 2147483647) := by
  by_cases hn : n ≤ 2147483647
  · rw [if_pos hn, decide_eq_true hn]
    rfl
  · rw [if_neg hn, decide_eq_false hn]
    exact .inl rfl

theorem eval_constant {least t : Ty} {n : Nat} (h : Ty.ofConstant? least n = some t) (env : Env) :
    Term.eval env (.constant least n) = .ok ⟨t, n⟩ := by
  rw [Term.eval, h]

/-- The negative of a constant is never out of its range. -/
theorem eval_neg_constant {least t : Ty} {n : Nat} (h : Ty.ofConstant? least n = some t)
    {narrow : Bool} (ht : t.HasWidth narrow) (hfits : t.Fits (-n)) (env : Env) :
    Term.eval env (.unary .neg (.constant least n)) = .ok ⟨t, -n⟩ := by
  rw [Term.eval, eval_constant h]
  show Value.arithmetic t.promote (-n) = _
  rw [ht.promote, Value.arithmetic, if_pos hfits]

theorem eval_intTerm_minValue (env : Env) :
    (intTerm Int64.minValue).eval env = .ok ⟨.longLong, Int64.minValue.toInt⟩ := rfl

theorem eval_intTerm (env : Env) (v : Int64) : ∃ w, (intTerm v).eval env = .ok w ∧
    w.StandsFor (v.toInt.natAbs ≤ 2147483647) (.int v) := by
  by_cases hv : v = Int64.minValue
  · subst hv
    -- written as a difference, in which one operand has the suffix
    have hwide : decide (Int64.minValue.toInt.natAbs ≤ 2147483647) = false := by decide
    rw [hwide]
    exact ⟨_, eval_intTerm_minValue env, rfl, .inr rfl, by decide⟩
  · have hmin : v.toInt ≠ -9223372036854775808 := by
      intro h
      exact hv (Int64.toInt.inj (h.trans Int64.toInt_minValue.symm))
    obtain ⟨hle, hlt⟩ := within64_toInt v
    have hconst := ofConstant?_int (show v.toInt.natAbs ≤ 9223372036854775807 by omega)
    have hty := hasWidth_constant v.toInt.natAbs
    have hfits : Ty.Fits (if v.toInt.natAbs ≤ 2147483647 then .int else .long) v.toInt := by
      rw [hty.fits_iff ⟨hle, hlt⟩]
      intro hn
      have hn := of_decide_eq_true hn
      exact ⟨by omega, by omega⟩
    refine ⟨⟨if v.toInt.natAbs ≤ 2147483647 then .int else .long, v.toInt⟩, ?_, rfl, hty, hfits⟩
    rw [intTerm, if_neg hv]
    split
    · rename_i hneg
      rw [Int64.lt_iff_toInt_lt, Int64.toInt_zero] at hneg
      have habs : -((v.toInt.natAbs : Nat) : Int) = v.toInt := by omega
      rw [eval_neg_constant hconst hty (habs.symm ▸ hfits), habs]
    · rename_i hneg
      rw [Int64.lt_iff_toInt_lt, Int64.toInt_zero] at hneg
      have habs : ((v.toInt.natAbs : Nat) : Int) = v.toInt := by omega
      rw [eval_constant hconst, habs]

/-! ## Expressions -/

/-- The environment has the values that the store has for what is in scope. -/
def Env.Shows (env : Env) (scope : ScopeTable) (store : Store) : Prop :=
  ∀ x info, scope.lookup x = some info → ∃ v, store[info.decl.index]? = some v ∧ v.ty = info.ty ∧
    env.read (Target.varName x info.decl) = some (info.ty.cTy, some (number v))

/-- Of an operator on integers both operands are evaluated. -/
theorem arithmetic_overflowsUnless {op : BinaryOp} (hop : op.operand = .int) {env : Env}
    {l r : Term} {fitsL fitsR : Prop} {narrowL narrowR : Bool} {v w u : WhileLang.Value}
    (hv : v.ty = .int) (hw : w.ty = .int) (hu : op.apply v w = .ok u)
    (hexact : ∀ n ∈ op.exact (.ok v) (.ok w), Within64 n)
    (hl : OverflowsUnless fitsL (·.StandsFor narrowL v) (Bounded.ofExcept (l.eval env)))
    (hr : OverflowsUnless fitsR (·.StandsFor narrowR w) (Bounded.ofExcept (r.eval env))) :
    OverflowsUnless (fitsL ∧ fitsR ∧ ((narrowL && narrowR) = true →
        ∀ n ∈ op.exact (.ok v) (.ok w), Within32 n))
      (·.StandsFor (narrowL && narrowR) u)
      (Bounded.ofExcept (Term.eval env (.binary op l r))) := by
  have heval : Term.eval env (.binary op l r) =
      l.eval env >>= fun v => r.eval env >>= fun w => Value.binary op v w := by
    cases op with
    | and | or => cases hop
    | _ => rfl
  rw [heval, ofExcept_bind]
  apply hl.bind
  intro v' hv'
  rw [ofExcept_bind]
  exact hr.bind fun w' hw' => Value.binary_overflowsUnless hop hv' hw' hv hw hu hexact

theorem Value.StandsFor.n_eq_zero_iff {w : Value} {narrow b : Bool}
    (h : w.StandsFor narrow (.bool b)) : w.n = 0 ↔ b = false := by
  rw [h.1]
  cases b <;> simp [number]

/-- The number of a truth value is another one than zero if it is true. -/
theorem Value.StandsFor.truth_ne_zero {w : Value} {narrow narrow' b : Bool}
    (h : w.StandsFor narrow (.bool b)) : (Value.truth (w.n ≠ 0)).StandsFor narrow' (.bool b) := by
  have hb : decide (w.n ≠ 0) = b := by simp [h.n_eq_zero_iff]
  rw [hb]
  exact .truth b

/-- **A connective** makes the value that the evaluator's makes. Where the first operand decides,
what the second would do is not asked. -/
theorem connective_overflowsUnless {op : BinaryOp} (hop : op.operand = .bool) {env : Env}
    {l r : Term} {fitsL fitsR : Prop} {narrowL narrowR : Bool} {v w u : WhileLang.Value}
    (hv : v.ty = .bool) (hw : w.ty = .bool) (hu : op.apply v w = .ok u)
    (hl : OverflowsUnless fitsL (·.StandsFor narrowL v) (Bounded.ofExcept (l.eval env)))
    (hr : OverflowsUnless fitsR (·.StandsFor narrowR w) (Bounded.ofExcept (r.eval env)))
    (narrow : Bool) :
    OverflowsUnless (fitsL ∧ (op.decided (.ok v) = false → fitsR)) (·.StandsFor narrow u)
      (Bounded.ofExcept (Term.eval env (.binary op l r))) := by
  obtain ⟨a, rfl⟩ := Value.ty_eq_bool.1 hv
  obtain ⟨b, rfl⟩ := Value.ty_eq_bool.1 hw
  -- what the second operand makes of the connective, once it is reached
  have htruth : OverflowsUnless fitsR (·.StandsFor narrow (.bool b)) (Bounded.ofExcept (do
      let w ← r.eval env
      .ok (Value.truth (w.n ≠ 0)))) := by
    rw [ofExcept_bind]
    exact hr.bind_ok fun w hw => ⟨_, rfl, hw.truth_ne_zero⟩
  cases op with
  | and =>
    obtain rfl := Except.ok.inj hu
    rw [Term.eval, ofExcept_bind]
    apply hl.bind
    intro w hw
    cases a with
    | false =>
      rw [if_pos (hw.n_eq_zero_iff.2 rfl)]
      exact .ok rfl (by simp [BinaryOp.decided]) (.truth false)
    | true =>
      rw [if_neg (by simp [hw.n_eq_zero_iff])]
      exact htruth.congr (by simp [BinaryOp.decided])
  | or =>
    obtain rfl := Except.ok.inj hu
    rw [Term.eval, ofExcept_bind]
    apply hl.bind
    intro w hw
    cases a with
    | true =>
      rw [if_pos (by simp [hw.n_eq_zero_iff])]
      exact .ok rfl (by simp [BinaryOp.decided]) (.truth true)
    | false =>
      rw [if_neg (by simp [hw.n_eq_zero_iff])]
      exact htruth.congr (by simp [BinaryOp.decided])
  | _ => cases hop

end WhileLang.C

namespace WhileLang

namespace Expr

variable {ann : Annotations} {store : Store} {n : Node}

/-- The second operand counts unless the first decides, and the operation if it is done in 32
bits. -/
theorem fitsInt_binary {op : BinaryOp} {l r : Expr} :
    (Expr.binary n op l r).FitsInt ann store ↔ l.FitsInt ann store ∧
      (op.decided (l.eval ann store) = false → r.FitsInt ann store) ∧
      ((l.isNarrow && r.isNarrow) = true →
        ∀ k ∈ op.exact (l.eval ann store) (r.eval ann store), Within32 k) := by
  simp only [FitsInt, intResults, List.forall_mem_append, and_assoc]
  cases op.decided (l.eval ann store) <;> cases (l.isNarrow && r.isNarrow) <;> simp

theorem fitsInt_unary {op : UnaryOp} {e : Expr} :
    (Expr.unary n op e).FitsInt ann store ↔ e.FitsInt ann store ∧
      (e.isNarrow = true → ∀ k ∈ op.exact (e.eval ann store), Within32 k) := by
  simp only [FitsInt, intResults, List.forall_mem_append]
  cases e.isNarrow <;> simp

/-- **The value of an expression in C.** If the exact results stay within 64 bits, it is the one
that the evaluator computes, or an operation of 32 bits overflows. -/
theorem cTerm_eval {scope : ScopeTable} {env : C.Env} (hs : env.Shows scope store) {e : Expr}
    {ty : Ty} (h : e.Valid ann scope ty) (hexact : e.Exact ann store) :
    ∃ v, e.eval ann store = .ok v ∧ v.ty = ty ∧
      C.OverflowsUnless (e.FitsInt ann store) (·.StandsFor e.isNarrow v)
        (Bounded.ofExcept ((e.cTerm ann).eval env)) := by
  induction e generalizing ty with
  | binary n op l r ihl ihr =>
    obtain ⟨hl, hr, rfl⟩ := h.binary
    obtain ⟨hel, her, heop⟩ := exact_binary.1 hexact
    obtain ⟨v, hv, hvt, hvc⟩ := ihl hl hel
    obtain ⟨w, hw, hwt, hwc⟩ := ihr hr her
    obtain ⟨u, hu, hut⟩ := BinaryOp.apply_eq_ok hvt hwt
    refine ⟨u, by rw [eval, hv, hw]; exact hu, hut, ?_⟩
    rw [fitsInt_binary, hv, hw]
    rw [hv, hw] at heop
    -- operators on integers evaluate both operands, and connectives compute nothing in 32 bits
    by_cases hop : op.operand = .int
    · rw [hop] at hvt hwt
      have hdecided : op.decided (.ok v) = false := by
        cases op <;> first | rfl | cases hop
      have hall := C.arithmetic_overflowsUnless hop hvt hwt hu heop hvc hwc
      exact hall.congr (by simp [hdecided])
    · have hop : op.operand = .bool := by
        cases op <;> first | rfl | exact absurd rfl hop
      rw [hop] at hvt hwt
      have hnone : op.exact (.ok v) (.ok w) = [] := by
        cases op <;> first | rfl | cases hop
      have hall := C.connective_overflowsUnless hop hvt hwt hu hvc hwc
        (Expr.binary n op l r).isNarrow
      exact hall.congr (by simp [hnone])
  | unary n op e ih =>
    obtain ⟨he, rfl⟩ := h.unary
    obtain ⟨hee, heop⟩ := exact_unary.1 hexact
    obtain ⟨v, hv, hvt, hvc⟩ := ih he hee
    obtain ⟨u, hu, hut⟩ := UnaryOp.apply_eq_ok hvt
    refine ⟨u, by rw [eval, hv]; exact hu, hut, ?_⟩
    rw [fitsInt_unary, hv]
    rw [hv] at heop
    rw [cTerm, C.Term.eval, C.ofExcept_bind]
    exact hvc.bind fun w hw => C.Value.unary_overflowsUnless hw hvt hu heop
  | bool n b =>
    refine ⟨.bool b, rfl, h.bool, ?_⟩
    cases b with
    | false => exact .ok rfl (by simp [FitsInt, intResults]) (.truth false)
    | true => exact .ok rfl (by simp [FitsInt, intResults]) (.truth true)
  | int n v =>
    obtain ⟨w, hw, hwv⟩ := C.eval_intTerm env v
    refine ⟨.int v, rfl, h.int, ?_⟩
    rw [cTerm, isNarrow]
    exact .ok hw (by simp [FitsInt, intResults]) hwv
  | var n s =>
    obtain ⟨info, hx, rfl, hbind⟩ := h.var
    obtain ⟨v, hv, hvt, hread⟩ := hs _ _ hx
    refine ⟨v, ?_, hvt, ?_⟩
    · simp only [eval, ann.resolve_eq_ok hbind, bind, Except.bind, hv]
    · rw [cTerm, ann.targetName_eq hbind, C.Term.eval, C.Env.value, hread, ← hvt]
      exact .ok rfl (by simp [FitsInt, intResults]) (.of_variable v)
  | hole n => exact h.whole.elim

end Expr

end WhileLang
