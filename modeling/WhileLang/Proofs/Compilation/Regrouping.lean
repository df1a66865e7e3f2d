import WhileLang.Proofs.Compilation.Reprint
import WhileLang.Proofs.Compilation.Typing
import WhileLang.Proofs.Parser.Literals

/-!
# `WhileLang/Proofs/Compilation/Regrouping.lean` — printing what was parsed but not checked

Printing does not ask whether a program is well typed, and the text is a program again, whatever
the types are: **nothing is found in it**, and its tree is the tree that was printed, regrouped. So
whether the program came back is a matter of one thing only. The printer puts no parentheses around
a negation, and a negation before an arithmetic operator or a comparison is read back with that in
its operand.
-/

set_option autoImplicit false

namespace WhileLang

namespace Compilation

/-- **Printing and parsing again, unchecked.** The canonical text of a source without findings of
the parser, in which no literal is too large, is parsed without findings. Up to places and numbers
of nodes the tree is the tree of the source, regrouped; and that is the tree of the source itself if
and only if no negation in it is the left operand of an operator that binds tighter. -/
theorem ofSource_print_regrouped (name name' : String) {source : Source}
    (hp : (ofSource name source).log.toList = [])
    (hl : ∀ spelling v, .token spelling (.literal v) ∈ pieces source.chars →
      Nat.ofDigitChars 10 spelling 0 < 9223372036854775808)
    {indent : Indent} (hi : indent.Blank) :
    let c := ofSource name source
    let c' := ofSource name' (Source.ofString (c.print indent))
    c'.log.toList = [] ∧ c'.program.bare = c.program.regrouped.bare ∧
      (c'.program.bare = c.program.bare ↔ c.program.Readable) := by
  intro c c'
  have hw : c.program.Whole := whole_of_log_eq_nil hp
  have hread : c'.program.shape = c.program.regrouped.signed.shape ∧ c'.log = .empty := by
    rw [program_ofSource name', log_ofSource name']
    exact Program.ofSource_text_of_whole ⟨0⟩ hw hi
  obtain ⟨hshape, hlog⟩ := hread
  have hparse : c.log.countOf .parse = 0 := by
    rw [Log.countOf, hp]
    rfl
  -- the integers are the literals of the source, so none of them comes apart into sign and digits
  have hints : c.program.ints = literals (lexemes source.chars) := Program.ints_ofSource hparse
  have hnonneg : ∀ v ∈ c.program.regrouped.ints, 0 ≤ v := by
    intro v hv
    rw [Program.ints_regrouped, hints, mem_literals] at hv
    obtain ⟨spelling, hmem, rfl⟩ := exists_spelling hv
    exact literalValue_nonneg (hl spelling _ hmem)
  rw [Program.signed_eq_self hnonneg] at hshape
  have hbare : c'.program.bare = c.program.regrouped.bare :=
    bare_eq_of_shape_eq name name' (Block.declNumbers_regrouped _) hshape
  refine ⟨congrArg Log.toList hlog, hbare, ?_⟩
  rw [hbare]
  exact Program.bare_regrouped_iff hw

/-- An ill-typed program with negations before operators of both kinds, and the largest literal. -/
theorem ofSource_print_regrouped_mixed :
    let source := Source.ofString
      "int x = (not 9223372036854775807) + 1; while not x < y or z \x7b b = true * (not x); \x7d
        return (not x) and y;"
    let c := ofSource "mixed" source
    let c' := ofSource "again" (Source.ofString (c.print .tab))
    c.log.toList = [] ∧
      (∀ spelling v, .token spelling (.literal v) ∈ pieces source.chars →
        Nat.ofDigitChars 10 spelling 0 < 9223372036854775808) ∧
      Indent.tab.Blank ∧ c'.log.toList = [] ∧ c'.program.bare = c.program.regrouped.bare ∧
      (c'.program.bare = c.program.bare ↔ c.program.Readable) := by
  intro source c c'
  have hp : c.log.toList = [] := by decide +kernel
  have hl : ∀ spelling v, .token spelling (.literal v) ∈ pieces source.chars →
      Nat.ofDigitChars 10 spelling 0 < 9223372036854775808 := by
    have hall : (pieces source.chars).all (fun p => match p with
        | .token ds (.literal _) => Nat.ofDigitChars 10 ds 0 < 9223372036854775808
        | _ => true) = true := by decide +kernel
    intro spelling v hmem
    exact of_decide_eq_true (List.all_eq_true.1 hall _ hmem)
  have hi : Indent.tab.Blank := List.all_eq_true.1 (by decide)
  exact ⟨hp, hl, hi, ofSource_print_regrouped "mixed" "again" hp hl hi⟩

/-- The negation of a truth value is compared with another; the comparison is read back negated. -/
theorem ofSource_print_regrouped_comparison :
    let source := Source.ofString "return (not x) == y;"
    let c := ofSource "comparison" source
    let c' := ofSource "again" (Source.ofString (c.print .tab))
    c.log.toList = [] ∧ literals (lexemes source.chars) = [] ∧ c'.log.toList = [] ∧
      c.print .tab = "return (not(x) == y);\n" ∧ c'.print .tab = "return not((x == y));\n" ∧
      c'.program.bare ≠ c.program.bare := by
  intro source c c'
  refine ⟨by decide +kernel, by decide +kernel, by decide +kernel, by decide +kernel,
    by decide +kernel, by decide +kernel⟩

end Compilation

end WhileLang
