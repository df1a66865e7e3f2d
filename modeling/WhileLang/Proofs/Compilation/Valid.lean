import WhileLang.Compilation
import WhileLang.Proofs.Evaluation.Agreement
import WhileLang.Proofs.Parser.Numbering
import WhileLang.Proofs.Parser.Whole
import WhileLang.Proofs.Typing.Faults

/-!
# `WhileLang/Proofs/Compilation/Valid.lean` — a source without errors has a valid program

Everything that is proved of a compilation that is not refused starts here: **the program of a
source below 2³¹ bytes in which neither the parser nor the checker finds an error is valid**
(`Compilation.valid_ofSource`).

Both phases are needed. The parser complains about what is missing and the checker does not, so
that nothing is missing is known from the former; names and types are the business of the latter.
The bound on the bytes keeps the numbers of nodes from coming round.
-/

set_option autoImplicit false

namespace WhileLang

/-- Errors add up. -/
theorem Log.errorCount_append {log : Log} {ds : List Diagnostic}
    (h : ∀ d ∈ ds, d.severity = .error) :
    (log.append ds).errorCount = log.errorCount + ds.length := by
  rw [errorCount, errorCount, toList_append, List.countP_append]
  congr 1
  rw [List.countP_eq_length]
  exact fun d hd => decide_eq_true (h d hd)

/-! ## Compilations -/

namespace Compilation

theorem program_ofSource (name : String) (source : Source) :
    (ofSource name source).program = (Program.ofSource ⟨0⟩ source).1 := rfl

theorem log_ofSource (name : String) (source : Source) :
    (ofSource name source).log = (Program.ofSource ⟨0⟩ source).2 := rfl

theorem log_check_ofSource (name : String) (source : Source) :
    (ofSource name source).check.log =
      (ofSource name source).log.append (ofSource name source).program.faults := rfl

/-- The errors of a compilation are those of its parser and those of its checker. -/
theorem errorCount_check_ofSource (name : String) (source : Source) :
    (ofSource name source).check.errorCount =
      (ofSource name source).log.errorCount + (ofSource name source).program.faults.length := by
  rw [errorCount, log_check_ofSource]
  exact Log.errorCount_append fun _ hd => Program.severity_of_mem_faults hd

/-- A source below 2³¹ bytes has no more nodes than there are numbers. -/
theorem length_numbers_ofSource (name : String) {source : Source} (h : source.length < 2147483648) :
    (ofSource name source).program.numbers.length ≤ 4294967296 := by
  obtain ⟨-, -, hle, hholes⟩ := Program.numbered_ofSource ⟨0⟩ source
  have hlex := length_lexemes_chars_le source
  rw [program_ofSource]
  omega

/-- With no more nodes than there are numbers, the numbers do not come round. -/
theorem nodup_numbers_ofSource (name : String) {source : Source}
    (h : (ofSource name source).program.numbers.length ≤ 4294967296) :
    (ofSource name source).program.numbers.Nodup ∧
      (ofSource name source).program.body.declNumbers.Nodup := by
  obtain ⟨hn, hd, -⟩ := Program.numbered_ofSource ⟨0⟩ source
  rw [program_ofSource] at h ⊢
  exact ⟨hn.nodup h, hd.nodup (Nat.le_trans (Program.length_declNumbers_le _) h)⟩

/-- No error at all means no error of the parser, and none of the checker. -/
theorem faults_eq_nil_of_errorCount {name : String} {source : Source}
    (he : (ofSource name source).check.errorCount = 0) :
    (ofSource name source).log.countOf .parse = 0 ∧
      (ofSource name source).program.faults = [] := by
  rw [errorCount_check_ofSource] at he
  have hle := Log.countOf_le_errorCount (ofSource name source).log .parse
  exact ⟨by omega, List.eq_nil_of_length_eq_zero (by omega)⟩

/-- A tree in which nothing was found is valid, if there are not too many nodes. -/
theorem valid_of_length_numbers (name : String) {source : Source}
    (h : (ofSource name source).program.numbers.length ≤ 4294967296)
    (he : (ofSource name source).check.errorCount = 0) :
    (ofSource name source).program.Valid (ofSource name source).checked := by
  obtain ⟨hparse, hf⟩ := faults_eq_nil_of_errorCount he
  obtain ⟨hn, hd⟩ := nodup_numbers_ofSource name h
  exact {
    whole := Program.whole_ofSource hparse
    faults := hf
    recorded := Program.recorded_annotations hn hd
    distinct := hd }

/-- **The program of a source without errors is valid.** -/
theorem valid_ofSource (name : String) {source : Source} (h : source.length < 2147483648)
    (he : (ofSource name source).check.errorCount = 0) :
    (ofSource name source).program.Valid (ofSource name source).checked :=
  valid_of_length_numbers name (length_numbers_ofSource name h) he

/-- A compilation without errors gives the code of its program. -/
theorem emit_target_of_errorCount_eq_zero {c : Compilation} (h : c.check.errorCount = 0)
    (t : Target) (indent : Indent) :
    c.emit (.target t) indent = (c.program.code t c.checked indent).mapError .code := by
  unfold emit refuse
  rw [if_pos h]
  rfl

end Compilation

end WhileLang
