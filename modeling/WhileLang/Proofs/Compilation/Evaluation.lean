import WhileLang.Proofs.Compilation.Valid

/-!
# `WhileLang/Proofs/Compilation/Evaluation.lean` — running what was not refused

A compilation is asked for the value of its program. While there are errors it refuses, and says how
many there are. Where there are none, **the program never fails**: under every bound it has a value
or is not done yet, and a value is of the type that the checker gives the result
(`evaluate_ofSource`). And it is the value that the names of the program have by themselves, in
frames that are opened and closed with the blocks (`evaluate_eq_evalScoped`).
-/

set_option autoImplicit false

namespace WhileLang

namespace Compilation

/-- A compilation with errors is refused. -/
theorem evaluate_of_errorCount_ne_zero {c : Compilation} (h : c.check.errorCount ≠ 0)
    (bound : Nat) : c.evaluate bound = some (.error (.unresolved c.check.errorCount)) := by
  unfold evaluate refuse
  rw [if_neg h]

/-- A compilation without errors is run. -/
theorem evaluate_of_errorCount_eq_zero {c : Compilation} (h : c.check.errorCount = 0)
    (bound : Nat) : c.evaluate bound =
      ((c.program.eval c.checked bound).run).map fun r => r.mapError .run := by
  unfold evaluate refuse
  rw [if_pos h]

/-- The value of a compilation without errors is that of its program. -/
theorem eval_of_evaluate {c : Compilation} (h : c.check.errorCount = 0) {bound : Nat} {v : Value}
    (hv : c.evaluate bound = some (.ok v)) : c.program.eval c.checked bound = pure v := by
  rw [evaluate_of_errorCount_eq_zero h] at hv
  rcases Bounded.cases_run (c.program.eval c.checked bound) with hx | ⟨fault, hx⟩ | ⟨w, hx⟩
  · rw [hx] at hv
    cases hv
  · rw [hx] at hv
    cases hv
  · rw [hx] at hv
    cases hv
    exact hx

/-- An answer stays when the bound grows. -/
theorem evaluate_upto (c : Compilation) (m n : Nat) (h : m ≤ n) :
    c.evaluate m = none ∨ c.evaluate m = c.evaluate n := by
  by_cases he : c.check.errorCount = 0
  · rw [evaluate_of_errorCount_eq_zero he, evaluate_of_errorCount_eq_zero he]
    rcases c.program.eval_upto c.checked h with hm | hm
    · rw [hm]
      exact .inl rfl
    · rw [hm]
      exact .inr rfl
  · rw [evaluate_of_errorCount_ne_zero he, evaluate_of_errorCount_ne_zero he]
    exact .inr rfl

/-- A run of a valid program has a value, or is not done yet. -/
theorem evaluate_cases {c : Compilation} (h : c.check.errorCount = 0)
    (hv : c.program.Valid c.checked) (bound : Nat) :
    (c.evaluate bound = none ∧ (c.program.evalScoped bound).run = none) ∨
      ∃ v, c.evaluate bound = some (.ok v) ∧ (c.program.evalScoped bound).run = some (.ok v) ∧
        v.ty = c.checked.tyOf c.program.result := by
  rw [evaluate_of_errorCount_eq_zero h, hv.tyOf_result]
  have hstep := Program.eval_inStep hv bound
  generalize c.program.eval c.checked bound = x at hstep ⊢
  generalize c.program.evalScoped bound = y at hstep ⊢
  cases hstep with
  | exhausted => exact .inl ⟨rfl, rfl⟩
  | pure hvw =>
    obtain ⟨rfl, hvt⟩ := hvw
    exact .inr ⟨_, rfl, rfl, hvt⟩

/-- **Running never fails.** A compilation of a source below 2³¹ bytes refuses to run its program,
because of as many errors as there are, or runs it for ever, or returns a value of the type that the
checker gives the result. -/
theorem evaluate_ofSource (name : String) {source : Source} (h : source.length < 2147483648) :
    let c := ofSource name source
    (0 < c.check.errorCount ∧
      ∀ bound, c.evaluate bound = some (.error (.unresolved c.check.errorCount))) ∨
    (c.check.errorCount = 0 ∧ Diverges c.evaluate) ∨
    (c.check.errorCount = 0 ∧ ∃ v, Settles c.evaluate (.ok v) ∧
      ((∃ n, v = .int n) ↔ c.checked.tyOf c.program.result = .int) ∧
      ((∃ b, v = .bool b) ↔ c.checked.tyOf c.program.result = .bool)) := by
  intro c
  by_cases he : c.check.errorCount = 0
  · have hv := valid_ofSource name h he
    -- no bound is enough, or one is, and then its answer stays
    by_cases hd : ∀ bound, c.evaluate bound = none
    · exact .inr (.inl ⟨he, hd⟩)
    · rw [not_forall] at hd
      obtain ⟨bound, hb⟩ := hd
      rcases evaluate_cases he hv bound with ⟨hnone, -⟩ | ⟨v, hsome, -, hvt⟩
      · exact absurd hnone hb
      · refine .inr (.inr ⟨he, v, settles_of_eq_some c.evaluate_upto hsome, ?_, ?_⟩)
        · rw [← hvt, Value.ty_eq_int]
        · rw [← hvt, Value.ty_eq_bool]
  · exact .inl ⟨Nat.pos_of_ne_zero he, evaluate_of_errorCount_ne_zero he⟩

/-- A program with a loop that ends comes to a value. -/
theorem evaluate_ofSource_doubling :
    let source := Source.ofString "int x = 1; while x < 3 \x7b x = x * 2; \x7d return x == 4;"
    let c := ofSource "doubling" source
    source.length < 2147483648 ∧ ∃ v, Settles c.evaluate (.ok v) := by
  intro source c
  have hlen : source.length < 2147483648 := by decide +kernel
  have hclean : ¬0 < c.check.errorCount := by decide +kernel
  have hdone : c.evaluate 3 ≠ none := by decide +kernel
  refine ⟨hlen, ?_⟩
  rcases evaluate_ofSource "doubling" hlen with ⟨he, -⟩ | ⟨-, hd⟩ | ⟨-, v, hv, -⟩
  · exact absurd he hclean
  · exact absurd (hd 3) hdone
  · exact ⟨v, hv⟩

/-- **Numbers of declarations stand for names.** Under every bound, a program without errors has the
value that its names have in frames, or neither run is done; so the two diverge together. -/
theorem evaluate_eq_evalScoped (name : String) {source : Source} (h : source.length < 2147483648)
    (he : (ofSource name source).check.errorCount = 0) (bound : Nat) :
    let c := ofSource name source
    (c.evaluate bound = none ∧ (c.program.evalScoped bound).run = none) ∨
      ∃ v, c.evaluate bound = some (.ok v) ∧ (c.program.evalScoped bound).run = some (.ok v) := by
  intro c
  rcases evaluate_cases he (valid_ofSource name h he) bound with hnone | ⟨v, hv, hv', -⟩
  · exact .inl hnone
  · exact .inr ⟨v, hv, hv'⟩

/-- A body that reads the outer variable before it hides it: both runs return the outer one. -/
theorem evaluate_eq_evalScoped_hiding :
    let source := Source.ofString
      "int x = 1; while x < 9 \x7b x = x + 4; int x = 0; x = x + 7; \x7d return x;"
    let c := ofSource "hiding" source
    source.length < 2147483648 ∧ c.check.errorCount = 0 ∧
      ∃ v, c.evaluate 3 = some (.ok v) ∧ (c.program.evalScoped 3).run = some (.ok v) := by
  intro source c
  have hlen : source.length < 2147483648 := by decide +kernel
  have he : c.check.errorCount = 0 := by decide +kernel
  refine ⟨hlen, he, ?_⟩
  rcases evaluate_eq_evalScoped "hiding" hlen he 3 with ⟨hnone, -⟩ | hv
  · have hdone : c.evaluate 3 ≠ none := by decide +kernel
    exact absurd hnone hdone
  · exact hv

end Compilation

end WhileLang
