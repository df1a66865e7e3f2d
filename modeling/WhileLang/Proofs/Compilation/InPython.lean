import WhileLang.Proofs.Compilation.Evaluation
import WhileLang.Proofs.Python.Simulation

/-!
# `WhileLang/Proofs/Compilation/InPython.lean` — what a program prints when it is compiled to Python

A program without errors has Python code, and the code is a Python script. Where no exact result
leaves 64 bits, **it prints the value of the program and a newline** (`printedBy_emit_python`), and
it runs for ever if the program does. Integers that wrap are where the two languages differ, and
nothing else: not the scopes of which Python has only one, not the operands that it leaves alone,
and not its grammar, in which `not` stands elsewhere.
-/

set_option autoImplicit false

namespace WhileLang

/-- **A valid program has Python code, which is read as the program it is.** -/
theorem Program.Valid.code_python {ann : Annotations} {p : Program} (h : p.Valid ann)
    {indent : Indent} (hi : indent.PyBlank) :
    ∃ text, p.code .python ann indent = .ok text ∧
      Python.Code.ofText text = some (p.pyCode ann) := by
  obtain ⟨text, hcode, htokens⟩ :=
    Program.blockTokens_code hi h.whole h.body.resolved h.result.resolved
  obtain ⟨hbody, hresult⟩ := wellTyped_of_faults h.whole h.faults
  rw [← h.tyOf_result] at hresult
  exact ⟨text, hcode, Program.ofText_pyTokens hbody hresult htokens⟩

/-- **A script prints what the run comes to that it goes in step with**, or nothing within the bound
if that does not come to an end. -/
theorem printedBy_of_inStep {text : String} {code : Python.Code} {bound : Nat}
    (ht : Python.Code.ofText text = some code) {run : Bounded RunFault Value}
    (h : Bounded.InStep (fun v s => s.output = (v.text ++ "\n").toList) run
      (code.run bound ⟨[], []⟩)) :
    (∀ v, run = pure v → Python.printedBy text bound = some (.ok (v.text ++ "\n"))) ∧
      (run = .exhausted → Python.printedBy text bound = none) := by
  have hprinted : Python.printedBy text bound = ((code.run bound ⟨[], []⟩).run).map fun r =>
      r.map fun s => String.ofList s.output := by rw [Python.printedBy, ht]
  rw [hprinted]
  generalize code.run bound ⟨[], []⟩ = script at h ⊢
  cases h with
  | exhausted =>
    refine ⟨fun v hv => ?_, fun _ => rfl⟩
    cases hv
  | @pure w s hout =>
    constructor
    · intro v hv
      cases hv
      show some (Except.ok (String.ofList s.output)) = _
      rw [hout, String.ofList_toList]
    · intro hv
      cases hv

namespace Compilation

/-- **What a program prints in Python.** A compilation of a source below 2³¹ bytes without errors
gives Python code, whatever blanks it is indented with. If no exact result leaves 64 bits, the code
prints the value of the program and a newline, and runs for ever if the program does. -/
theorem printedBy_emit_python (name : String) {source : Source} (h : source.length < 2147483648)
    {indent : Indent} (hi : indent.PyBlank) (he : (ofSource name source).check.errorCount = 0)
    (hexact : ∀ e s, (ofSource name source).program.Evaluates (ofSource name source).checked e s →
      e.Exact (ofSource name source).checked s) :
    let c := ofSource name source
    ∃ text, c.emit (.target .python) indent = .ok text ∧ ∀ bound,
      (∀ v, c.evaluate bound = some (.ok v) →
        Python.printedBy text bound = some (.ok (v.text ++ "\n"))) ∧
      (c.evaluate bound = none → Python.printedBy text bound = none) := by
  intro c
  have hvalid := valid_ofSource name h he
  obtain ⟨text, hcode, htext⟩ := hvalid.code_python hi
  refine ⟨text, ?_, ?_⟩
  · rw [emit_target_of_errorCount_eq_zero he, hcode]
    rfl
  · intro bound
    obtain ⟨hprints, hnothing⟩ :=
      printedBy_of_inStep htext (Program.run_pyCode hvalid bound hexact)
    refine ⟨fun v hv => hprints v (eval_of_evaluate he hv), fun hnone => hnothing ?_⟩
    rw [evaluate_of_errorCount_eq_zero he, Option.map_eq_none_iff] at hnone
    exact hnone

/-- Both `not` and `or` stand outside parentheses, and the product is in an operand of `not`. -/
theorem printedBy_emit_python_not :
    let source := Source.ofString "return not 2 * 3 < 7 or 7 - 8 < 0;"
    let c := ofSource "not" source
    source.length < 2147483648 ∧ Indent.tab.PyBlank ∧ c.check.errorCount = 0 ∧
      (∀ e s, c.program.Evaluates c.checked e s → e.Exact c.checked s) ∧
      c.evaluate 0 = some (.ok (.bool true)) ∧
      ∃ text, c.emit (.target .python) .tab = .ok text ∧
        Python.printedBy text 0 = some (.ok "true\n") := by
  intro source c
  have hlen : source.length < 2147483648 := by decide +kernel
  have he : c.check.errorCount = 0 := by decide +kernel
  have hbody : c.program.body = .done := by decide +kernel
  have hexact : ∀ e s, c.program.Evaluates c.checked e s → e.Exact c.checked s := by
    have hresults : c.program.result.exactResults c.checked .empty = [6, -1] := by
      decide +kernel
    rw [Program.forall_evaluates_of_done hbody, Expr.Exact, hresults]
    decide
  have hv : c.evaluate 0 = some (.ok (.bool true)) := by decide +kernel
  obtain ⟨text, htext, hprints⟩ := printedBy_emit_python "not" hlen Indent.pyBlank_tab he hexact
  exact ⟨hlen, Indent.pyBlank_tab, he, hexact, hv, text, htext, (hprints 0).1 _ hv⟩

end Compilation

end WhileLang
