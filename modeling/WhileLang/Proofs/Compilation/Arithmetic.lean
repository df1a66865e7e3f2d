import WhileLang.Proofs.Compilation.Evaluation
import WhileLang.Proofs.Evaluation.Unbounded
import WhileLang.Proofs.Parser.Spelled

/-!
# `WhileLang/Proofs/Compilation/Arithmetic.lean` — arithmetic modulo 2⁶⁴

Integers are reduced to 64 bits at two places: the lexer reduces a literal, and every operation
reduces its result. A program of arithmetic does not show where. **What it returns is the integer
that it comes to without any reduction, reduced once** (`evaluate_modEq`).
-/

set_option autoImplicit false

namespace WhileLang.Compilation

/-- Under every bound a program of arithmetic returns the integer of its unbounded run, reduced. -/
theorem evaluate_eq_unbounded (name : String) {source : Source} (h : source.length < 2147483648)
    (he : (ofSource name source).check.errorCount = 0)
    (ha : (ofSource name source).program.isArithmetic = true) (bound : Nat) :
    ∃ z, (ofSource name source).program.unbounded source = some z ∧
      (ofSource name source).evaluate bound = some (.ok (.ofInt z)) := by
  have hs : Spelled source (ofSource name source).program.exprs :=
    Program.decimal?_ofSource ⟨0⟩ (by omega)
  have hreduces := Program.reduces_evalScoped bound ha hs
  have heval := evaluate_eq_evalScoped name h he bound
  simp only at heval
  generalize (ofSource name source).program.evalScoped bound = x at hreduces heval
  generalize (ofSource name source).program.unbounded source = y at hreduces ⊢
  -- a run that is not refused does not fail, and without loops it is done
  cases hreduces with
  | fault e y =>
    rcases heval with ⟨-, hnone⟩ | ⟨v, -, hv⟩
    · cases hnone
    · cases hv
  | value z =>
    rcases heval with ⟨-, hnone⟩ | ⟨v, hsome, hv⟩
    · cases hnone
    · cases hv
      exact ⟨z, rfl, hsome⟩

/-- **Arithmetic is exact modulo 2⁶⁴.** A program of a source below 2³¹ bytes without errors, in
which there are no loops and no operators but sums, differences, products and signs, has an integer
when it is run over all integers, with the digits of each literal for its value; and it returns the
one word of 64 bits that is congruent to this integer modulo 2⁶⁴. -/
theorem evaluate_modEq (name : String) {source : Source} (h : source.length < 2147483648)
    (he : (ofSource name source).check.errorCount = 0)
    (ha : (ofSource name source).program.isArithmetic = true) :
    let c := ofSource name source
    ∃ z v, c.program.unbounded source = some z ∧
      (∀ bound, c.evaluate bound = some (.ok (.int v))) ∧
      ∀ w : Int64, w.toInt ≡ z [ZMOD 2 ^ 64] ↔ w = v := by
  intro c
  obtain ⟨z, hz, -⟩ := evaluate_eq_unbounded name h he ha 0
  refine ⟨z, Int64.ofInt z, hz, fun bound => ?_, (toInt_modEq_iff · z)⟩
  obtain ⟨z', hz', hv⟩ := evaluate_eq_unbounded name h he ha bound
  obtain rfl := Option.some.inj (hz.symm.trans hz')
  exact hv

/-- A literal of 2⁶³ that is negated, one above 2⁶⁴, and one with zeros in front; a variable that
is assigned to; and a product that wraps. -/
theorem evaluate_modEq_wrapping :
    let source := Source.ofString
      "int x = -9223372036854775808; int y = 18446744073709551619; x = x - 007; return x * y;"
    let c := ofSource "wrapping" source
    source.length < 2147483648 ∧ c.check.errorCount = 0 ∧ c.program.isArithmetic = true ∧
    c.program.unbounded source = some (-170141183460469231888484628342415294485) ∧
    c.evaluate 0 = some (.ok (.int 9223372036854775787)) := by
  intro source c
  have hlen : source.length < 2147483648 := by decide +kernel
  have he : c.check.errorCount = 0 := by decide +kernel
  have ha : c.program.isArithmetic = true := by decide +kernel
  have hvalue : c.program.unbounded source =
      some (-170141183460469231888484628342415294485) := by decide +kernel
  obtain ⟨z, v, hz, hv, hword⟩ := evaluate_modEq "wrapping" hlen he ha
  obtain rfl := Option.some.inj (hvalue.symm.trans hz)
  obtain rfl := (hword 9223372036854775787).1 (by decide +kernel)
  exact ⟨hlen, he, ha, hvalue, hv 0⟩

end WhileLang.Compilation
