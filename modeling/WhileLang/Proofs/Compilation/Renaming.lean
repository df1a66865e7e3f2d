import WhileLang.Proofs.C.Scoping
import WhileLang.Proofs.Compilation.Valid
import WhileLang.Proofs.Python.Names

/-!
# `WhileLang/Proofs/Compilation/Renaming.lean` — compiled names capture nothing

Where a source without errors hides one variable by another of the same name, its C and Python code
have two names. **Every name in the code is that of the declaration which the name of the source
means, and no two declarations share one** (`emit_captures_nothing`). In C, where names are scoped
as well, that declaration is also the one which C finds.
-/

set_option autoImplicit false

namespace WhileLang

namespace Compilation

/-- **Renaming captures nothing.** A compilation of a source below 2³¹ bytes without errors has as
many variable names as declarations. The names in its C and its Python code are those of the source
one for one, in the order of the text: for a declaration the name of its variable, and for a use
that of the declaration which is visible where it stands. This declaration comes before the use, in
the same block or in one around it, and it is the one that C finds there by its own rules. -/
theorem emit_captures_nothing (name : String) {source : Source} (h : source.length < 2147483648)
    (he : (ofSource name source).check.errorCount = 0) :
    let c := ofSource name source
    let p := c.program
    (p.body.declarations.map Declaration.targetName).Nodup ∧
    (∀ indent : Indent, indent.CBlank → ∃ text main,
      c.emit (.target .c) indent = .ok text ∧ C.Main.ofText text = some main ∧
      main.status.names = [] ∧ List.Forall₂ (Mention.InC p) p.mentions main.mentions) ∧
    (∀ indent : Indent, (∀ ch ∈ indent.unit.toList, Python.isBlank ch = true) → ∃ text rows,
      c.emit (.target .python) indent = .ok text ∧ Python.rows text.toList = some rows ∧
      List.Forall₂ (Mention.InPython p) p.mentions (rows.flatMap Python.Row.names)) := by
  intro c p
  have hvalid := valid_ofSource name h he
  refine ⟨hvalid.nodup_targetName, fun indent hi => ?_, fun indent hi => ?_⟩
  · obtain ⟨text, hcode, hmain⟩ := hvalid.code_c hi
    refine ⟨text, _, ?_, hmain, rfl, hvalid.inC_mentions⟩
    rw [emit_target_of_errorCount_eq_zero he, hcode]
    rfl
  · obtain ⟨text, hcode, hrows⟩ :=
      Program.rows_code hi hvalid.whole hvalid.body.resolved hvalid.result.resolved
    refine ⟨text, _, ?_, hrows, ?_⟩
    · rw [emit_target_of_errorCount_eq_zero he, hcode]
      rfl
    · rw [Python.Rows.flatMap_names_atWidths]
      exact hvalid.inPython_names

/-- A variable that hides another in the body of a loop, and whose first value is that of the one it
hides. The Python code is written without any indent. -/
theorem emit_captures_nothing_hidden :
    let source := Source.ofString
      "int x = 1; while x < 2 \x7b int x = x + 1; x = x + 1; \x7d x = x + 1; return x;"
    let c := ofSource "hidden" source
    source.length < 2147483648 ∧ c.check.errorCount = 0 ∧
    c.program.body.declarations.map Declaration.targetName = ["_x_0", "_x_1"] ∧
    (∃ text main, c.emit (.target .c) .tab = .ok text ∧ C.Main.ofText text = some main ∧
      List.Forall₂ (Mention.InC c.program) c.program.mentions main.mentions ∧
      main.mentions.length = 9) ∧
    ∃ text rows, c.emit (.target .python) (.spaces 0) = .ok text ∧
      Python.rows text.toList = some rows ∧
      List.Forall₂ (Mention.InPython c.program) c.program.mentions
        (rows.flatMap Python.Row.names) := by
  intro source c
  have hlen : source.length < 2147483648 := by decide +kernel
  have he : c.check.errorCount = 0 := by decide +kernel
  have hcount : c.program.mentions.length = 9 := by decide +kernel
  obtain ⟨-, hc, hpython⟩ := emit_captures_nothing "hidden" hlen he
  obtain ⟨text, main, htext, hmain, -, hmentions⟩ := hc .tab (List.all_eq_true.1 (by decide))
  exact ⟨hlen, he, by decide +kernel, ⟨text, main, htext, hmain, hmentions,
    hmentions.length_eq.symm.trans hcount⟩, hpython (.spaces 0) (List.all_eq_true.1 (by decide))⟩

end Compilation

end WhileLang
