import WhileLang.Compilation
import WhileLang.Proofs.Compilation.Valid
import WhileLang.Proofs.Parser.Origin
import WhileLang.Proofs.Typing.Origin

/-!
# `WhileLang/Proofs/Compilation/Rendered.lean` — findings can be read back line by line

What was found in a source is shown as a text, in which nothing marks where one finding ends but the
newline. That is enough: **a text with findings has one line for each record of the log, and each
line says what its record is** (`split_renderLog_check`). A message may quote any character of the
source that is in the wrong place, and any name; there is no newline among them, since a newline is
a blank and a blank is neither stray nor in a name.
-/

set_option autoImplicit false

namespace WhileLang

namespace Compilation

/-- The findings of both phases are about the one file there is. -/
theorem inFile_log_check (name : String) (source : Source) :
    ∀ d ∈ (ofSource name source).check.log.toList, d.InFile ⟨0⟩ := by
  rw [log_check_ofSource, Log.toList_append, List.forall_mem_append, log_ofSource,
    program_ofSource]
  exact ⟨Program.log_inFile_ofSource ⟨0⟩ source, (Program.inFile_ofSource ⟨0⟩ source).faults⟩

/-- **The text of the findings is one line for each of their records**, and no two records have the
same line. -/
theorem split_renderLog_check {name : String} (source : Source) (hname : OneLine name) :
    let c := (ofSource name source).check
    (c.log.toList ≠ [] →
      (c.renderLog.split '\n').toStringList = c.log.records.map (Record.line name)) ∧
    ∀ r r' : Record, r.line name = r'.line name → r = r' := by
  intro c
  have hfiles : c.files.name ⟨0⟩ = name := rfl
  refine ⟨fun hne => ?_, fun r r' h => Record.line_injective name h⟩
  have hsplit := Log.split_render (hfiles ▸ hname) (inFile_log_check name source) hne
  rw [hfiles] at hsplit
  exact hsplit

/-- All phases complain, and two of the complaints have notes. A place is a point, a part of a row
or more than a row. -/
theorem split_renderLog_check_broken :
    let source := Source.ofString "int x = 4$;\nbool x =\n 1;\nx = y < (1 +\n true);\nreturn -"
    let c := (ofSource "broken: 1" source).check
    OneLine "broken: 1" ∧ c.log.toList ≠ [] ∧
      (c.renderLog.split '\n').toStringList = [
        "broken: 1:1:10: error: invalid input char '$'",
        "broken: 1:6:9: error: expected primary or unary expression, got '<end of file>' " ++
          "while parsing unary expression",
        "broken: 1:6:9: error: expected ';', got '<end of file>' " ++
          "while parsing end of the final return of the program",
        "broken: 1:3:2: error: initializer of declaration 'x' must be of type 'bool' " ++
          "but is of type 'int'",
        "broken: 1:2:6: error: identifier 'x' already declared in this scope",
        "broken: 1:1:5: note: previous declaration of 'x' here",
        "broken: 1:4:5: error: identifier 'y' not found",
        "broken: 1:5:2-5: error: right-hand side of operator '+' must be of type 'int' " ++
          "but is of type 'bool'",
        "broken: 1:4:5-5:6: error: right-hand side of assignment to 'x' " ++
          "must be of type 'int' but is of type 'bool'",
        "broken: 1:1:5: note: 'x' declared here"] := by
  intro source c
  have hname : OneLine "broken: 1" := by decide
  have hne : c.log.toList ≠ [] := by decide +kernel
  obtain ⟨hsplit, -⟩ := split_renderLog_check source hname
  refine ⟨hname, hne, (hsplit hne).trans ?_⟩
  decide +kernel

end Compilation

end WhileLang
