import WhileLang.Proofs.Compilation.Valid
import WhileLang.Proofs.Target.Obstacles
import WhileLang.Proofs.Target.Resolved

/-!
# `WhileLang/Proofs/Compilation/Coded.lean` — which programs have code

Code is written from the tree and the tables of a checker, whatever was found about the source. It
is there in both languages or in none, and **it is missing only for holes and for names without a
declaration** (`emit_ok_iff_resolved`): the third thing that could be without code, a declaration of
unknown type, is nothing that a parser makes. A compilation asks for code only after a check without
errors, when none of this is left.
-/

set_option autoImplicit false

namespace WhileLang

/-! ## Resolved trees have no part without code -/

theorem Expr.Resolved.firstFault {ann : Annotations} {e : Expr} (h : e.Resolved ann) :
    firstFault ann e.parts = none := by
  induction e with
  | binary n op l r ihl ihr =>
    have hl := ihl h.1
    have hr := ihr h.2
    unfold parts at hl hr ⊢
    simp [nodes, hl, hr, Part.fault?]
  | unary n op e ih =>
    have he := ih h
    unfold parts at he ⊢
    simp [nodes, he, Part.fault?]
  | bool | int => rfl
  | var n s =>
    have hvar : ann.varFault? n.id s.name = none := Annotations.varFault?_eq_none_iff.2 h
    simp [parts, nodes, Part.fault?, hvar]
  | hole n => exact h.elim

theorem Block.Resolved.firstFault {ann : Annotations} {b : Block} (h : b.Resolved ann) :
    firstFault ann b.parts = none := by
  induction b with
  | done => rfl
  | declare d rest ih => simp [parts, h.1.firstFault, ih h.2]
  | assign a rest ih =>
    have htarget : ann.varFault? a.node.id a.symbol.name = none :=
      Annotations.varFault?_eq_none_iff.2 h.2.1
    simp [parts, h.1.firstFault, ih h.2.2, Part.fault?, htarget]
  | loop w body rest ihb ihr => simp [parts, h.1.firstFault, ihb h.2.1, ihr h.2.2]

namespace Compilation

/-- Whatever the tables say, the code of what was parsed fails at its first part without code. -/
theorem faultOf_code_ofSource (name : String) (source : Source) (t : Target) (ann : Annotations)
    (indent : Indent) : faultOf ((ofSource name source).program.code t ann indent) =
      firstFault ann (ofSource name source).program.parts :=
  Program.faultOf_code t ann (Program.ty_ne_unknown_ofSource ⟨0⟩ source) indent

/-- A checked program without errors has code in every language. -/
theorem emit_ne_code (name : String) (source : Source) (form : OutputForm) (indent : Indent)
    (fault : CodeFault) : (ofSource name source).emit form indent ≠ .error (.code fault) := by
  intro h
  by_cases he : (ofSource name source).check.errorCount = 0
  · cases form with
    | canonical =>
      rw [emit, refuse, if_pos he] at h
      cases h
    | target t =>
      obtain ⟨hparse, hf⟩ := faults_eq_nil_of_errorCount he
      have hw : (ofSource name source).program.Whole := Program.whole_ofSource hparse
      have hnone : faultOf ((ofSource name source).program.code t
          (ofSource name source).checked indent) = none := by
        obtain ⟨hbody, hresult⟩ := Program.resolved_of_faults hw hf
        rw [faultOf_code_ofSource, Program.parts, firstFault_append]
        exact Option.or_eq_none_iff.2 ⟨hbody.firstFault, hresult.firstFault⟩
      obtain ⟨text, htext⟩ := faultOf_eq_none_iff.1 hnone
      rw [emit_target_of_errorCount_eq_zero he, htext] at h
      cases h
  · rw [emit, refuse, if_neg he] at h
    cases h

/-- **Code is missing exactly for holes and names that were not resolved.** Of any source, with
errors or not: there is code in a language if and only if no expression is a hole, and every
variable and every target of an assignment has a declaration in the tables. If there is none, the
fault is in both languages that of the first part, in the order of the text, that has no code. And
what asks for code only after a check without errors never gets such a fault. -/
theorem emit_ok_iff_resolved (name : String) (source : Source) (indent : Indent) :
    let c := ofSource name source
    let p := c.program
    (∀ t, (∃ text, p.emit (.target t) c.checked indent = .ok text) ↔
      (∀ e ∈ p.exprs, (∀ n, e ≠ .hole n) ∧
        ∀ n s, e = .var n s → ∃ d, c.checked.binding? n.id = some d) ∧
      ∀ a ∈ p.body.assignments, ∃ d, c.checked.binding? a.node.id = some d) ∧
    (∀ t fault, p.emit (.target t) c.checked indent = .error fault ↔
      ∃ before part after, p.parts = before ++ part :: after ∧
        (∀ q ∈ before, q.fault? c.checked = none) ∧ part.fault? c.checked = some fault) ∧
    (p.parts.filterMap Part.expr? = p.exprs ∧
      p.parts.filterMap Part.target? = p.body.assignments) ∧
    ∀ form fault, c.emit form indent ≠ .error (.code fault) := by
  intro c p
  have hfault (t : Target) : faultOf (p.emit (.target t) c.checked indent) =
      firstFault c.checked p.parts := faultOf_code_ofSource name source t c.checked indent
  refine ⟨fun t => ?_, fun t fault => ?_, ⟨p.filterMap_expr?_parts, p.filterMap_target?_parts⟩,
    fun form fault => emit_ne_code name source form indent fault⟩
  · rw [← faultOf_eq_none_iff, hfault, firstFault_eq_none_iff, Program.forall_mem_parts]
    exact and_congr (forall₂_congr fun _ _ => Expr.fault?_eq_none_iff)
      (forall₂_congr fun _ _ => Annotations.varFault?_eq_none_iff)
  · rw [← faultOf_eq_some_iff, hfault, firstFault_eq_some_iff]

/-- What is missing on the right of an assignment comes before the name on its left. -/
example : let c := ofSource "missing" (Source.ofString "x = ; return y;")
    ∀ t, c.program.emit (.target t) c.checked (.spaces 2) = .error .hole := by
  intro c t
  cases t <;> decide +kernel

end Compilation

end WhileLang
