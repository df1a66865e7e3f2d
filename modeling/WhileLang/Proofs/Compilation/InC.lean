import WhileLang.Proofs.C.Simulation
import WhileLang.Proofs.Compilation.Evaluation

/-!
# `WhileLang/Proofs/Compilation/InC.lean` — what a program prints when it is compiled to C

A program without errors has C code, and the code is a C program. Where no exact result leaves 64
bits, it prints the value of the program and a newline, **if and only if no operation on literals
leaves the 32 bits in which C does it**, and overflows otherwise (`printedBy_emit`): variables are
of 64 bits in C as they are for the evaluator, but a literal has the type `int` there as long as its
value fits, and of two operands of that type the result has it as well.
-/

set_option autoImplicit false

namespace WhileLang

/-- What a text prints whose program may overflow. -/
theorem C.printedBy_of_overflowsUnless {text output : String} {main : C.Main} {bound : Nat}
    {fits : Prop} (ht : C.Main.ofText text = some main)
    (h : C.OverflowsUnless fits (· = output.toList) (main.run bound)) :
    (C.printedBy text bound = some (.ok output) ↔ fits) ∧
      (C.printedBy text bound = some (.error .overflow) ↔ ¬fits) := by
  have hprinted : C.printedBy text bound =
      ((main.run bound).run).map fun r => r.map String.ofList := by rw [C.printedBy, ht]
  rw [hprinted]
  generalize main.run bound = run at h ⊢
  cases h with
  | answer hfits hchars =>
    subst hchars
    refine ⟨iff_of_true ?_ hfits, iff_of_false ?_ (not_not.2 hfits)⟩
    · show some (Except.ok (String.ofList output.toList)) = _
      rw [String.ofList_toList]
    · intro hover
      cases hover
  | overflow hfits =>
    refine ⟨iff_of_false ?_ hfits, iff_of_true rfl hfits⟩
    intro hanswer
    cases hanswer

namespace Compilation

/-- **What a program prints in C.** A compilation of a source below 2³¹ bytes without errors gives C
code. When its program has a value, and no exact result leaves 64 bits, the code prints that value
and a newline if and only if no operation of 32 bits that is reached leaves its range; and if one
does, the code overflows. -/
theorem printedBy_emit (name : String) {source : Source} (h : source.length < 2147483648)
    {indent : Indent} (hi : indent.CBlank) (he : (ofSource name source).check.errorCount = 0)
    {bound : Nat} {v : Value} (hv : (ofSource name source).evaluate bound = some (.ok v))
    (hexact : ∀ e s, (ofSource name source).program.Evaluates (ofSource name source).checked e s →
      e.Exact (ofSource name source).checked s) :
    let c := ofSource name source
    let fits := ∀ e s, c.program.Evaluates c.checked e s → e.FitsInt c.checked s
    ∃ text, c.emit (.target .c) indent = .ok text ∧
      (C.printedBy text bound = some (.ok (v.text ++ "\n")) ↔ fits) ∧
      (C.printedBy text bound = some (.error .overflow) ↔ ¬fits) := by
  intro c fits
  have hvalid := valid_ofSource name h he
  obtain ⟨text, hcode, htext⟩ := hvalid.code_c hi
  refine ⟨text, ?_, ?_⟩
  · rw [emit_target_of_errorCount_eq_zero he, hcode]
    rfl
  · exact C.printedBy_of_overflowsUnless htext
      (Program.run_cMain hvalid (eval_of_evaluate he hv) hexact)

/-- The sum of the literals would overflow in C, and is not reached there. -/
theorem printedBy_emit_decided :
    let source := Source.ofString "return 1 < 2 or 2147483647 + 1 < 0;"
    let c := ofSource "decided" source
    source.length < 2147483648 ∧ Indent.tab.CBlank ∧ c.check.errorCount = 0 ∧
      c.evaluate 0 = some (.ok (.bool true)) ∧
      (∀ e s, c.program.Evaluates c.checked e s → e.Exact c.checked s) ∧
      ∃ text, c.emit (.target .c) .tab = .ok text ∧
        C.printedBy text 0 = some (.ok "true\n") := by
  intro source c
  have hlen : source.length < 2147483648 := by decide +kernel
  have hi : Indent.tab.CBlank := List.all_eq_true.1 (by decide)
  have he : c.check.errorCount = 0 := by decide +kernel
  have hv : c.evaluate 0 = some (.ok (.bool true)) := by decide +kernel
  have hbody : c.program.body = .done := by decide +kernel
  have hexact : ∀ e s, c.program.Evaluates c.checked e s → e.Exact c.checked s := by
    have hresults : c.program.result.exactResults c.checked .empty = [2147483648] := by
      decide +kernel
    rw [Program.forall_evaluates_of_done hbody, Expr.Exact, hresults]
    decide
  have hfits : ∀ e s, c.program.Evaluates c.checked e s → e.FitsInt c.checked s := by
    have hresults : c.program.result.intResults c.checked .empty = [] := by decide +kernel
    rw [Program.forall_evaluates_of_done hbody, Expr.FitsInt, hresults]
    decide
  obtain ⟨text, htext, hprints, -⟩ := printedBy_emit "decided" hlen hi he hv hexact
  exact ⟨hlen, hi, he, hv, hexact, text, htext, hprints.2 hfits⟩

/-- Where the same sum is reached, the evaluator returns it and the code overflows. -/
theorem printedBy_emit_sum :
    let source := Source.ofString "return 2147483647 + 1;"
    let c := ofSource "sum" source
    c.check.errorCount = 0 ∧ c.evaluate 0 = some (.ok (.int 2147483648)) ∧
      (∀ e s, c.program.Evaluates c.checked e s → e.Exact c.checked s) ∧
      ∃ text, c.emit (.target .c) .tab = .ok text ∧
        C.printedBy text 0 = some (.error .overflow) := by
  intro source c
  have he : c.check.errorCount = 0 := by decide +kernel
  have hv : c.evaluate 0 = some (.ok (.int 2147483648)) := by decide +kernel
  have htext : c.emit (.target .c) .tab = .ok ("#include <stdbool.h>\n#include <stdio.h>\n\n" ++
      "int main() \x7b\n\tprintf(\"%lld\\n\", (long long)((2147483647 + 1)));\n\treturn 0;\n\x7d\n") := by
    decide +kernel
  refine ⟨he, hv, ?_, _, htext, by decide +kernel⟩
  have hbody : c.program.body = .done := by decide +kernel
  have hresults : c.program.result.exactResults c.checked .empty = [2147483648] := by
    decide +kernel
  rw [Program.forall_evaluates_of_done hbody, Expr.Exact, hresults]
  decide

end Compilation

end WhileLang
