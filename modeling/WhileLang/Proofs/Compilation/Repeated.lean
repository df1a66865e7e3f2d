import Mathlib.Logic.Function.Iterate
import WhileLang.Proofs.Compilation.Reprint
import WhileLang.Proofs.Parser.Literals

/-!
# `WhileLang/Proofs/Compilation/Repeated.lean` — the canonical text of the canonical text

The canonical text of a correct program is parsed and printed again, and so on. What is read back is
the program with its signs, so **a round of reading and printing is one round of `signed`**
(`reprints_eq`), and the text stays what it was exactly when no literal of the source was reduced to
a negative integer. Otherwise it becomes longer once, and then stays, unless the least integer is
among the literals: that is negative again behind its sign, and no two rounds print the same.
-/

set_option autoImplicit false

namespace WhileLang

namespace Compilation

/-- The canonical text of a source, then that of this text, and so on. -/
def reprints (name : String) (indent : Indent) (source : Source) : Nat → String
  | 0 => (ofSource name source).print indent
  | k + 1 => (ofSource name (.ofString (reprints name indent source k))).print indent

/-! ## Rounds -/

/-- One round: what is read back of the text of a program is printed as the signed program. -/
theorem print_ofString_text (name : String) {p : Program} {ty : Ty} (ht : p.WellTyped ty)
    (hw : p.Whole) {indent : Indent} (hi : indent.Blank) :
    (ofSource name (.ofString (p.text indent))).print indent = p.signed.text indent := by
  obtain ⟨hshape, -⟩ := Program.ofSource_text ⟨0⟩ ht hw hi
  rw [print, program_ofSource, ← Program.text_shape]
  exact (congrArg (Program.text · indent) hshape).trans (Program.text_shape _ indent)

/-- Many rounds: each signs the program once more, and leaves it correct. -/
theorem reprints_eq {name : String} {source : Source}
    (he : (ofSource name source).check.errorCount = 0) {indent : Indent} (hi : indent.Blank)
    (k : Nat) : reprints name indent source k =
      (Program.signed^[k] (ofSource name source).program).text indent := by
  obtain ⟨hparse, hf⟩ := faults_eq_nil_of_errorCount he
  have hw : (ofSource name source).program.Whole := Program.whole_ofSource hparse
  obtain ⟨ty, ht⟩ := (Program.faults_eq_nil_iff hw).1 hf
  have hcorrect (k : Nat) : (Program.signed^[k] (ofSource name source).program).WellTyped ty ∧
      (Program.signed^[k] (ofSource name source).program).Whole := by
    induction k with
    | zero => exact ⟨ht, hw⟩
    | succ k ih =>
      rw [Function.iterate_succ_apply']
      exact ⟨ih.1.signed, ih.2.signed⟩
  induction k with
  | zero => rfl
  | succ k ih =>
    rw [reprints, ih, Function.iterate_succ_apply']
    exact print_ofString_text name (hcorrect k).1 (hcorrect k).2 hi

/-! ## When the text stays -/

/-- The integers of a program without errors are the literals of its source. -/
theorem mem_ints_iff {name : String} {source : Source}
    (he : (ofSource name source).check.errorCount = 0) {v : Int64} :
    v ∈ (ofSource name source).program.ints ↔ .literal v ∈ lexemes source.chars := by
  have hints := Program.ints_ofSource (faults_eq_nil_of_errorCount he).1
  rw [← mem_literals, ← hints]
  rfl

/-- However often a program is signed, it has the least integer if it had it at first. -/
theorem minValue_mem_ints_iterate (p : Program) (k : Nat) :
    Int64.minValue ∈ (Program.signed^[k] p).ints ↔ Int64.minValue ∈ p.ints := by
  induction k with
  | zero => rfl
  | succ k ih => rw [Function.iterate_succ_apply', Program.minValue_mem_ints_signed, ih]

/-- **When printing is idempotent.** The canonical text of a source without errors is printed again
as it is, in one round or in all of them, if and only if no literal of the source was reduced to a
negative integer. From the first round on the text stays if and only if the least integer is not
among the literals. -/
theorem reprints_ofSource (name : String) {source : Source}
    (he : (ofSource name source).check.errorCount = 0) {indent : Indent} (hi : indent.Blank) :
    let text := reprints name indent source
    (text 1 = text 0 ↔ ∀ v, .literal v ∈ lexemes source.chars → 0 ≤ v) ∧
    ((∀ k, text k = text 0) ↔ ∀ v, .literal v ∈ lexemes source.chars → 0 ≤ v) ∧
    ∀ k, text (k + 2) = text (k + 1) ↔ .literal Int64.minValue ∉ lexemes source.chars := by
  intro text
  have hround (k : Nat) : text (k + 1) = text k ↔
      ∀ v ∈ (Program.signed^[k] (ofSource name source).program).ints, 0 ≤ v := by
    show reprints name indent source (k + 1) = reprints name indent source k ↔ _
    rw [reprints_eq he hi, reprints_eq he hi, Function.iterate_succ_apply',
      Program.text_signed_eq_iff]
  have hnonneg : (∀ v ∈ (ofSource name source).program.ints, 0 ≤ v) ↔
      ∀ v, .literal v ∈ lexemes source.chars → 0 ≤ v :=
    forall_congr' fun v => imp_congr_left (mem_ints_iff he)
  have hfirst : text 1 = text 0 ↔ ∀ v, .literal v ∈ lexemes source.chars → 0 ≤ v :=
    (hround 0).trans hnonneg
  refine ⟨hfirst, ⟨fun h => hfirst.1 (h 1), fun h k => ?_⟩, fun k => ?_⟩
  · -- a program without negative integers is its own signed program
    have hfixed := Program.signed_eq_self (hnonneg.2 h)
    show reprints name indent source k = reprints name indent source 0
    rw [reprints_eq he hi, reprints_eq he hi, Function.iterate_fixed hfixed]
    rfl
  · rw [hround (k + 1), Function.iterate_succ_apply', Program.nonneg_ints_signed,
      minValue_mem_ints_iterate, mem_ints_iff he]

/-- Two literals that are reduced, one of them to the least integer, in a text with an indent. -/
theorem reprints_ofSource_reduced :
    let source := Source.ofString
      "int x = 18446744073709551611; while x < 0 { x = 9223372036854775808 + x; } return x;"
    let text := reprints "reduced" .tab source
    (ofSource "reduced" source).check.errorCount = 0 ∧ Indent.tab.Blank ∧
      (text 1 = text 0 ↔ ∀ v, .literal v ∈ lexemes source.chars → 0 ≤ v) ∧
      ((∀ k, text k = text 0) ↔ ∀ v, .literal v ∈ lexemes source.chars → 0 ≤ v) ∧
      ∀ k, text (k + 2) = text (k + 1) ↔ .literal Int64.minValue ∉ lexemes source.chars := by
  intro source text
  have he : (ofSource "reduced" source).check.errorCount = 0 := by decide +kernel
  have hi : Indent.tab.Blank := List.all_eq_true.1 (by decide)
  exact ⟨he, hi, reprints_ofSource "reduced" he hi⟩

/-- The digits of 2⁶⁴ - 5 are read as -5, and -5 is read back as a sign and 5. -/
theorem reprints_ofSource_negative :
    let source := Source.ofString "return 18446744073709551611;"
    (ofSource "negative" source).check.errorCount = 0 ∧ Indent.tab.Blank ∧
      reprints "negative" .tab source 0 = "return -5;\n" ∧
      reprints "negative" .tab source 1 = "return -(5);\n" := by
  intro source
  have he : (ofSource "negative" source).check.errorCount = 0 := by decide +kernel
  have hi : Indent.tab.Blank := List.all_eq_true.1 (by decide)
  exact ⟨he, hi, by decide +kernel, by decide +kernel⟩

end Compilation

end WhileLang
