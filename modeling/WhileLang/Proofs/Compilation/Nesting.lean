import WhileLang.Proofs.Compilation.Valid
import WhileLang.Proofs.Python.Nesting

/-!
# `WhileLang/Proofs/Compilation/Nesting.lean` — the nesting of Python code

In Python only the blanks before a line say to which loop it belongs. So **the lines of the code are
nested as the program is, if a level is indented by at least one blank** (`emit_python_nests`).
Nothing keeps a level from being indented by none, however, and then the body of a loop stands where
the loop does and the lines are no program.
-/

set_option autoImplicit false

namespace WhileLang.Compilation

/-- **The nesting of Python code.** A compilation without errors gives Python code for every width
of indentation. Its lines are read as the statements of the program are nested, each loop with its
body and `pass` for an empty one, and the line that prints the result after them, if the width is
not zero or there is no loop; and otherwise they cannot be read. -/
theorem emit_python_nests (name : String) {source : Source}
    (he : (ofSource name source).check.errorCount = 0) (width : Nat) :
    let c := ofSource name source
    ∃ text rows, c.emit (.target .python) (.spaces width) = .ok text ∧
      Python.rows text.toList = some rows ∧
      (0 < width ∨ c.program.body.loops = [] →
        Python.outline? .zero rows = some (c.program.outline c.checked)) ∧
      (¬(0 < width ∨ c.program.body.loops = []) → Python.outline? .zero rows = none) := by
  intro c
  obtain ⟨hparse, hf⟩ := faults_eq_nil_of_errorCount he
  have hw : c.program.Whole := Program.whole_ofSource hparse
  obtain ⟨hbody, hresult⟩ := Program.resolved_of_faults hw hf
  obtain ⟨text, hcode, hrows⟩ :=
    Program.rows_code (Indent.isBlank_of_mem_spaces width) hw hbody hresult
  refine ⟨text, _, ?_, hrows, fun h => ?_, fun h => ?_⟩
  · rw [emit_target_of_errorCount_eq_zero he]
    exact congrArg (Except.mapError CompileFault.code) hcode
  · refine Program.outline?_pyRows (w := (Indent.spaces width).pyWidth) fun hloops => ?_
    exact Indent.widens_pyWidth (Indent.pyBlank_spaces (h.resolve_right hloops))
  · obtain ⟨hzero, hloops⟩ := not_or.1 h
    obtain rfl := Nat.eq_zero_of_not_pos hzero
    have hflat (depth : Nat) : (Indent.spaces 0).pyWidth depth = (Indent.spaces 0).pyWidth 0 :=
      (Indent.pyWidth_spaces_zero depth).trans (Indent.pyWidth_spaces_zero 0).symm
    exact Block.outline?_eq_none hflat hloops 0 _

/-- Two loops that end together, the inner one without statements. -/
theorem emit_python_nests_inner :
    let source := Source.ofString
      "int x = 3; while 0 < x \x7b x = x - 1; while x < 0 \x7b \x7d \x7d return x;"
    let c := ofSource "inner" source
    c.check.errorCount = 0 ∧
    ∃ text rows, c.emit (.target .python) (.spaces 1) = .ok text ∧
      Python.rows text.toList = some rows ∧
      Python.outline? .zero rows = some (c.program.outline c.checked) := by
  intro source c
  have he : c.check.errorCount = 0 := by decide +kernel
  obtain ⟨text, rows, htext, hrows, hread, -⟩ := emit_python_nests "inner" he 1
  exact ⟨he, text, rows, htext, hrows, hread (.inl Nat.one_pos)⟩

/-- The body of the loop is not indented, so that there is nothing in the loop. -/
theorem emit_python_nests_flat :
    let source := Source.ofString "while false \x7b \x7d return 0;"
    let c := ofSource "flat" source
    c.check.errorCount = 0 ∧
    ∃ text rows, c.emit (.target .python) (.spaces 0) = .ok text ∧
      text = "while False:\npass\nprint(0)\n" ∧
      Python.rows text.toList = some rows ∧ Python.outline? .zero rows = none := by
  intro source c
  have hrows : Python.rows "while False:\npass\nprint(0)\n".toList = some
      [⟨.zero, [.keyword .while, .keyword .false, .sign .colon]⟩, ⟨.zero, [.keyword .pass]⟩,
        ⟨.zero, [.keyword .print, .sign .parenL, .number 0, .sign .parenR]⟩] := by
    decide +kernel
  refine ⟨by decide +kernel, _, _, by decide +kernel, rfl, hrows, ?_⟩
  refine Python.outline?_eq_none rfl fun r hr => ?_
  obtain rfl := Option.some.inj hr
  rfl

end WhileLang.Compilation
