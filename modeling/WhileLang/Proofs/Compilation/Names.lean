import WhileLang.Proofs.Compilation.Valid
import WhileLang.Proofs.Parser.Findings
import WhileLang.Proofs.Typing.Lexical

/-!
# `WhileLang/Proofs/Compilation/Names.lean` — names mean what stands before them

Of any source, well formed or not: **every name is bound to the declaration that it means by its
place, and what means nothing or is declared twice is complained about once**
(`resolves_lexically`). Nothing is assumed of the source but that its nodes have numbers enough,
since a tree with holes and missing names in it is walked as any other is.
-/

set_option autoImplicit false

namespace WhileLang

theorem undeclaredSpans_of_isOfParse {ds : List Diagnostic} (h : ∀ d ∈ ds, d.IsOfParse) :
    undeclaredSpans ds = [] := by
  rw [undeclaredSpans, List.map_eq_nil_iff, List.filter_eq_nil_iff]
  intro d hd
  obtain ⟨-, hk | hk⟩ := h d hd <;> simp [hk]

theorem redeclaredSpans_of_isOfParse {ds : List Diagnostic} (h : ∀ d ∈ ds, d.IsOfParse) :
    redeclaredSpans ds = [] := by
  rw [redeclaredSpans, List.map_eq_nil_iff, List.filter_eq_nil_iff]
  intro d hd
  obtain ⟨-, hk | hk⟩ := h d hd <;> simp [hk]

namespace Compilation

/-- **Names are resolved lexically.** The uses are the variables and the targets of assignments,
each once. A use has the declaration that is visible where it stands, and none if there is none;
the findings about undeclared and about repeated names are the uses of the latter kind and the
repetitions, one for each and at their places; and every declaration, repeated or not, has an entry
of its own. -/
theorem resolves_lexically (name : String) {source : Source} (h : source.length < 2147483648) :
    let c := ofSource name source
    let p := c.program
    let log := c.check.log.toList
    (p.uses.map fun u => (u.node, u.symbol)).Perm
      (p.exprs.filterMap Expr.var? ++ p.body.assignments.map fun a => (a.node.id, a.symbol)) ∧
    (∀ u ∈ p.uses, u.symbol.isError = false →
      c.checked.binding? u.node = (p.visible u.address u.symbol.name).map (·.decl)) ∧
    (log.filter (·.kind = .undeclared)).map (·.span) = p.unbound.map (·.symbol.span) ∧
    (log.filter (·.kind = .redeclaration)).map (fun d => (d.span, d.notes.map (·.span))) =
      p.redeclarations.map (fun r => (r.1.symbol.span, [r.2.symbol.span])) ∧
    (p.body.declarations.map (·.decl)).Nodup ∧
    (∀ d ∈ p.body.declarations, c.checked.decl? d.decl = some d.info) ∧
    c.checked.declCount = p.body.declarations.length := by
  intro c p log
  obtain ⟨hn, hd⟩ := nodup_numbers_ofSource name (length_numbers_ofSource name h)
  have hrecorded : p.Recorded c.checked := Program.recorded_annotations hn hd
  have hparse : ∀ d ∈ c.log.toList, d.IsOfParse := Program.isOfParse_ofSource ⟨0⟩ source
  have hlog : log = c.log.toList ++ p.faults := Log.toList_append ..
  refine ⟨p.perm_map_uses, fun u hu => hrecorded.binds u hu, ?_, ?_, ?_, hrecorded.1.decl?,
    Program.declCount_annotations hd⟩
  · show undeclaredSpans log = _
    rw [hlog, undeclaredSpans_append, undeclaredSpans_of_isOfParse hparse, List.nil_append]
    exact p.undeclaredSpans_faults
  · show redeclaredSpans log = _
    rw [hlog, redeclaredSpans_append, redeclaredSpans_of_isOfParse hparse, List.nil_append]
    exact p.redeclaredSpans_faults
  · refine .of_map DeclId.index ?_
    rw [List.map_map]
    exact p.body.declNumbers_eq_map ▸ hd

/-- A missing name, a name that is repeated in a loop and hides one outside, and names that are not
declared, one of them in its own first value. -/
theorem resolves_lexically_repeated :
    let source := Source.ofString
      "int = 1; int x = x; while x < 1 \x7b bool x = true; int x = 2; y = x; \x7d return x + y;"
    let c := ofSource "repeated" source
    let log := c.check.log.toList
    source.length < 2147483648 ∧
    (∀ u ∈ c.program.uses, u.symbol.isError = false →
      c.checked.binding? u.node = (c.program.visible u.address u.symbol.name).map (·.decl)) ∧
    c.program.uses.length = 6 ∧ (log.filter (·.kind = .undeclared)).length = 3 ∧
    (log.filter (·.kind = .redeclaration)).length = 1 ∧ c.checked.declCount = 4 := by
  intro source c log
  have hlen : source.length < 2147483648 := by decide +kernel
  obtain ⟨-, hbinds, hundeclared, hrepeated, -, -, hcount⟩ := resolves_lexically "repeated" hlen
  have hundeclared := congrArg List.length hundeclared
  have hrepeated := congrArg List.length hrepeated
  rw [List.length_map, List.length_map] at hundeclared hrepeated
  exact ⟨hlen, hbinds, by decide +kernel, hundeclared.trans (by decide +kernel),
    hrepeated.trans (by decide +kernel), hcount.trans (by decide +kernel)⟩

end Compilation

end WhileLang
