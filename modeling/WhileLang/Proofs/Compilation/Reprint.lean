import WhileLang.Proofs.Compilation.Evaluation
import WhileLang.Proofs.Parser.Readback

/-!
# `WhileLang/Proofs/Compilation/Reprint.lean` — the canonical text is the program again

A program without errors is printed, and the text is compiled. **Nothing is found in it, the tree is
the tree that was printed, and it has the same value** (`ofSource_print`). Only places and the
numbers of nodes may differ, and the negative integers, of which the text has the sign and the
digits apart.

That the numbers of the second tree do not come round is not a matter of its size in bytes. The
indent may be long, so the text may have any size; but a node is a token, and signs at most double
the nodes of the first tree, of which there are fewer than 2³¹.
-/

set_option autoImplicit false

namespace WhileLang

namespace Compilation

/-- A source without errors has fewer nodes than bytes. -/
theorem length_numbers_le_of_whole (name : String) {source : Source}
    (hw : (ofSource name source).program.Whole) :
    (ofSource name source).program.numbers.length ≤ source.length := by
  obtain ⟨-, -, hle, -⟩ := Program.numbered_ofSource ⟨0⟩ source
  have hlex := length_lexemes_chars_le source
  rw [← program_ofSource name, hw.holes] at hle
  omega

/-- A parsed tree is a tree of its shape, up to places and numbers of nodes, if that numbers its
declarations as a parsed tree does: both number them from zero. -/
theorem bare_eq_of_shape_eq (name name' : String) {source source' : Source} {p : Program}
    (hp : p.body.declNumbers = (ofSource name source).program.body.declNumbers)
    (h : (ofSource name' source').program.shape = p.shape) :
    (ofSource name' source').program.bare = p.bare := by
  obtain ⟨-, hd, -⟩ := Program.numbered_ofSource ⟨0⟩ source
  obtain ⟨-, hd', -⟩ := Program.numbered_ofSource ⟨0⟩ source'
  rw [← program_ofSource name, ← hp] at hd
  rw [← program_ofSource name'] at hd'
  have hbody : (ofSource name' source').program.body.shape = p.body.shape :=
    congrArg Program.body h
  have hlen : (ofSource name' source').program.body.declNumbers.length =
      p.body.declNumbers.length := by
    rw [← Block.length_declNumbers_shape, hbody, Block.length_declNumbers_shape]
  exact Program.bare_eq_of_shape_eq h (hd'.eq_of_length_eq hd hlen)

theorem bare_of_shape_eq (name name' : String) {source source' : Source}
    (h : (ofSource name' source').program.shape = (ofSource name source).program.signed.shape) :
    (ofSource name' source').program.bare = (ofSource name source).program.signed.bare :=
  bare_eq_of_shape_eq name name' (Block.declNumbers_signed _) h

/-- A compilation in whose tree the checker finds nothing has found nothing. -/
theorem log_check_eq_nil {name : String} {source : Source}
    (h : (ofSource name source).log = .empty) (hf : (ofSource name source).program.faults = []) :
    (ofSource name source).check.log.toList = [] := by
  rw [log_check_ofSource, Log.toList_append, h, hf]
  rfl

/-- Two programs that are not refused and have one scoped value under a bound have one value. -/
theorem evaluate_eq_of_evalScoped_eq {c c' : Compilation} (he : c.check.errorCount = 0)
    (hv : c.program.Valid c.checked) (he' : c'.check.errorCount = 0)
    (hv' : c'.program.Valid c'.checked) {bound : Nat}
    (h : c'.program.evalScoped bound = c.program.evalScoped bound) :
    c'.evaluate bound = c.evaluate bound := by
  rcases evaluate_cases he hv bound with ⟨hn, hs⟩ | ⟨v, hn, hs, -⟩ <;>
    rcases evaluate_cases he' hv' bound with ⟨hn', hs'⟩ | ⟨v', hn', hs', -⟩
  · rw [hn, hn']
  · simp [h, hs] at hs'
  · simp [h, hs] at hs'
  · rw [h, hs] at hs'
    obtain rfl : v = v' := by simpa using hs'
    rw [hn, hn']

/-- **Printing and compiling again.** The canonical text of a source without errors has no errors
either; its tree is the tree of the source, up to places, numbers of nodes and the signs of negative
integers; and under every bound the two have the same value, or neither is done. -/
theorem ofSource_print (name name' : String) {source : Source} (h : source.length < 2147483648)
    (he : (ofSource name source).check.errorCount = 0) {indent : Indent} (hi : indent.Blank) :
    let c := ofSource name source
    let c' := ofSource name' (Source.ofString (c.print indent))
    c'.log.toList = [] ∧ c'.program.bare = c.program.signed.bare ∧ c'.check.log.toList = [] ∧
      ∀ bound, c'.evaluate bound = c.evaluate bound := by
  intro c c'
  have hv : c.program.Valid c.checked := valid_ofSource name h he
  obtain ⟨ty, ht⟩ := (Program.faults_eq_nil_iff hv.whole).1 hv.faults
  have hread : c'.program.shape = c.program.signed.shape ∧ c'.log = .empty := by
    rw [program_ofSource name', log_ofSource name']
    exact Program.ofSource_text ⟨0⟩ ht hv.whole hi
  obtain ⟨hshape, hlog⟩ := hread
  have hw' : c'.program.Whole := hv.whole.of_shape_eq hshape
  have hf' : c'.program.faults = [] :=
    (Program.faults_eq_nil_iff hw').2 ⟨ty, ht.of_shape_eq hshape⟩
  have hcheck : c'.check.log.toList = [] := log_check_eq_nil hlog hf'
  have he' : c'.check.errorCount = 0 := by
    rw [errorCount, Log.errorCount, hcheck]
    rfl
  -- a node is a token, so the size of the indent does not count
  have hlen : c'.program.numbers.length ≤ 4294967296 := by
    have hle : c.program.numbers.length ≤ source.length :=
      length_numbers_le_of_whole name hv.whole
    have hle' := Program.length_numbers_of_shape_eq hshape
    omega
  have hv' : c'.program.Valid c'.checked := valid_of_length_numbers name' hlen he'
  refine ⟨congrArg Log.toList hlog, bare_of_shape_eq name name' hshape, hcheck, fun bound => ?_⟩
  exact evaluate_eq_of_evalScoped_eq he hv he' hv' (Program.evalScoped_of_shape_eq hshape bound)

/-- A program with the least integer, which is its own negative, and a block to indent. -/
theorem ofSource_print_least :
    let source := Source.ofString
      "int x = 9223372036854775808; while x < 0 \x7b int y = 3 - 1; x = x * y; \x7d return not x < 0;"
    let c := ofSource "least" source
    let c' := ofSource "again" (Source.ofString (c.print .tab))
    source.length < 2147483648 ∧ c.check.errorCount = 0 ∧ Indent.tab.Blank ∧ c'.log.toList = [] ∧
      c'.program.bare = c.program.signed.bare ∧ c'.check.log.toList = [] ∧
      ∀ bound, c'.evaluate bound = c.evaluate bound := by
  intro source c c'
  have hlen : source.length < 2147483648 := by decide +kernel
  have he : c.check.errorCount = 0 := by decide +kernel
  have hi : Indent.tab.Blank := List.all_eq_true.1 (by decide)
  exact ⟨hlen, he, hi, ofSource_print "least" "again" hlen he hi⟩

end Compilation

end WhileLang
