import WhileLang.Proofs.Compilation.Valid
import WhileLang.Proofs.Compilation.Unplaced
import WhileLang.Proofs.Parser.Unplaced
import WhileLang.Proofs.Token.Spacing

/-!
# `WhileLang/Proofs/Compilation/Spacing.lean` — layout never changes meaning

Blanks between tokens are for the reader. **Put anywhere but inside a token, they change the places
that are shown and nothing else** (`ofSource_insert`), in a program as in a text that is none: the
lexer finds the same tokens and stray characters, the parser does not look at places and neither
does the checker, and no output shows them.
-/

set_option autoImplicit false

namespace WhileLang

namespace Compilation

/-- Two compilations that differ in places only. -/
structure SameMeaning (c c' : Compilation) : Prop where
  /-- The trees have the same numbers of nodes and declarations. -/
  program : c'.program.unplaced = c.program.unplaced
  /-- The parser has the same findings, with their notes, in the same order. -/
  log : c'.log.unplaced = c.log.unplaced
  /-- So has the checker after it. -/
  checkedLog : c'.check.log.unplaced = c.check.log.unplaced
  /-- Every node has the same type and refers to the same declaration. -/
  checked : c.checked.Agree c'.checked
  print (indent : Indent) : c'.print indent = c.print indent
  /-- The code is the same, or the reason why there is none. -/
  emit (form : OutputForm) (indent : Indent) : c'.emit form indent = c.emit form indent
  /-- So is what would be written without asking for errors. -/
  code (form : OutputForm) (indent : Indent) :
    c'.program.emit form c'.checked indent = c.program.emit form c.checked indent
  /-- Under every bound there is the same value or fault, or neither is done. -/
  evaluate (bound : Nat) : c'.evaluate bound = c.evaluate bound
  /-- So is what would be evaluated without asking for errors. -/
  eval (bound : Nat) : c'.program.eval c'.checked bound = c.program.eval c.checked bound

/-- What follows once the lexers are equal up to places. -/
theorem SameMeaning.of_lexer (name name' : String) {source source' : Source}
    (h : (Lexer.ofSource ⟨0⟩ source).unplaced = (Lexer.ofSource ⟨0⟩ source').unplaced) :
    (ofSource name source).SameMeaning (ofSource name' source') := by
  obtain ⟨hprogram, hlog⟩ := Program.unplaced_ofLexer_eq h .empty
  change (ofSource name source).program.unplaced = (ofSource name' source').program.unplaced
    at hprogram
  change (ofSource name source).log.unplaced = (ofSource name' source').log.unplaced at hlog
  have hchecked : (ofSource name source).checked.Agree (ofSource name' source').checked :=
    Program.agree_annotations_of_eq hprogram
  have hcheckedLog : (ofSource name' source').check.log.unplaced =
      (ofSource name source).check.log.unplaced := by
    rw [log_check_ofSource, log_check_ofSource, Log.unplaced_append, Log.unplaced_append, hlog,
      Program.faults_of_unplaced_eq hprogram]
  -- the gate counts errors, and a finding is an error or not whatever its place is
  have hrefuse : (ofSource name' source').refuse = (ofSource name source).refuse := by
    rw [refuse, errorCount, ← Log.errorCount_unplaced, hcheckedLog, Log.errorCount_unplaced]
    rfl
  have hcode := Program.emit_of_unplaced_eq hprogram hchecked
  have heval := Program.eval_of_unplaced_eq hprogram hchecked
  exact {
    program := hprogram.symm
    log := hlog.symm
    checkedLog := hcheckedLog
    checked := hchecked
    print := Program.text_of_unplaced_eq hprogram
    emit := by
      intro form indent
      rw [Compilation.emit, hrefuse, hcode, Compilation.emit]
    code := hcode
    evaluate := by
      intro bound
      rw [Compilation.evaluate, hrefuse, heval, Compilation.evaluate]
    eval := heval }

/-- **Layout never changes meaning.** In any source, correct or not, blanks that are put where no
token is torn apart leave the tree, its numbers, all findings, the types and bindings of all nodes,
the texts in every form and the value as they were. -/
theorem ofSource_insert (name name' : String) {a b w : Source}
    (h : Seam (Source.chars a) (Source.chars b)) (hne : w ≠ [])
    (hw : ∀ c ∈ Source.chars w, isBlank c = true) :
    (ofSource name (a ++ b)).SameMeaning (ofSource name' (a ++ w ++ b)) := by
  apply SameMeaning.of_lexer
  have hchars : Source.chars w ≠ [] := by
    intro hnil
    exact hne (List.map_eq_nil_iff.1 hnil)
  obtain ⟨ps, qs, hps, hinsert⟩ := exists_pieces_insert h hchars hw
  apply Lexer.unplaced_ofPieces_eq
  have hab : Source.chars (a ++ b) = Source.chars a ++ Source.chars b := List.map_append
  have hawb : Source.chars (a ++ w ++ b) =
      Source.chars a ++ (Source.chars w ++ Source.chars b) := by
    simp only [Source.chars, List.map_append, List.append_assoc]
  have hblanks : ((Source.chars w).map Piece.blank).filter (fun q => !q.isSpace) = [] := by
    rw [List.filter_eq_nil_iff]
    intro q hq
    obtain ⟨c, -, rfl⟩ := List.mem_map.1 hq
    exact Bool.false_ne_true
  rw [hab, hawb, hps, hinsert, List.filter_append, List.filter_append, List.filter_append,
    hblanks, List.append_nil]

/-- A text that is no program, with a newline between a lone exclamation mark and a byte that
belongs to no token. -/
theorem ofSource_insert_stray :
    let a := Source.ofString "int x = 12ab; while x <= y!"
    let b := 233 :: Source.ofString "=2 \x7b x = (not 1"
    let w := Source.ofString "\n\t "
    Seam (Source.chars a) (Source.chars b) ∧ w ≠ [] ∧
      (∀ c ∈ Source.chars w, isBlank c = true) ∧
      (ofSource "dense" (a ++ b)).SameMeaning (ofSource "spaced" (a ++ w ++ b)) := by
  intro a b w
  have hsplit : pieces (Source.chars a ++ Source.chars b) =
      pieces (Source.chars a) ++ pieces (Source.chars b) := by decide +kernel
  have h : Seam (Source.chars a) (Source.chars b) := .of_pieces hsplit (text_pieces _)
  have hne : w ≠ [] := by decide +kernel
  have hw : ∀ c ∈ Source.chars w, isBlank c = true := List.all_eq_true.1 (by decide +kernel)
  exact ⟨h, hne, hw, ofSource_insert "dense" "spaced" h hne hw⟩

end Compilation

end WhileLang
