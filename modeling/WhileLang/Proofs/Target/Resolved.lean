import WhileLang.Proofs.Typing.Kept
import WhileLang.Proofs.Typing.Valid
import WhileLang.Target.Code

/-!
# `WhileLang/Proofs/Target/Resolved.lean` — programs whose variables are all resolved

Code exists as soon as **the tables have a declaration for every variable** and nothing is missing.
Types have no part in it but those of declarations. Every valid program is of this kind.
-/

set_option autoImplicit false

namespace WhileLang

/-! ## Resolved trees -/

/-- The tables have a declaration for every variable. -/
def Expr.Resolved (ann : Annotations) : Expr → Prop
  | .binary _ _ l r => l.Resolved ann ∧ r.Resolved ann
  | .unary _ _ e => e.Resolved ann
  | .var n _ => ∃ d, ann.binding? n.id = some d
  | .bool _ _ | .int _ _ => True
  | .hole _ => False

/-- The same for all expressions and assignments of a block. -/
def Block.Resolved (ann : Annotations) : Block → Prop
  | .done => True
  | .declare d rest => d.init.Resolved ann ∧ rest.Resolved ann
  | .assign a rest =>
    a.value.Resolved ann ∧ (∃ d, ann.binding? a.node.id = some d) ∧ rest.Resolved ann
  | .loop w body rest => w.cond.Resolved ann ∧ body.Resolved ann ∧ rest.Resolved ann

/-- The name of the variable that a node refers to, if it refers to one. -/
def Annotations.targetName (ann : Annotations) (node : NodeId) (name : String) : String :=
  match ann.binding? node with
  | some d => Target.varName name d
  | none => name

theorem Annotations.targetName_eq {ann : Annotations} {node : NodeId} {d : DeclId}
    (h : ann.binding? node = some d) (x : String) :
    ann.targetName node x = Target.varName x d := by
  rw [targetName, h]

theorem Annotations.varName_eq_ok {ann : Annotations} {node : NodeId} {d : DeclId}
    (h : ann.binding? node = some d) (x : String) :
    ann.varName node x = .ok (Target.varName x d) := by
  rw [varName, h]

/-! ## Valid programs are resolved -/

/-- Every variable of a valid expression has its declaration in the tables. -/
theorem Expr.Valid.resolved {ann : Annotations} {scope : ScopeTable} {e : Expr} {ty : Ty}
    (h : e.Valid ann scope ty) : e.Resolved ann := by
  induction e generalizing ty with
  | binary n op l r ihl ihr => exact ⟨ihl h.binary.1, ihr h.binary.2.1⟩
  | unary n op e ih => exact ih h.unary.1
  | bool | int => trivial
  | var n s =>
    obtain ⟨info, -, -, hbind⟩ := h.var
    exact ⟨info.decl, hbind⟩
  | hole n => exact h.whole.elim

theorem Block.Valid.resolved {ann : Annotations} {scope : ScopeTable} {b : Block}
    (h : b.Valid ann scope) : b.Resolved ann := by
  induction b generalizing scope with
  | done => trivial
  | declare d rest ih =>
    obtain ⟨hinit, -, -, hrest⟩ := h.declare
    exact ⟨hinit.resolved, ih hrest⟩
  | assign a rest ih =>
    obtain ⟨info, -, hvalue, hbind, hrest⟩ := h.assign
    exact ⟨hvalue.resolved, ⟨info.decl, hbind⟩, ih hrest⟩
  | loop w body rest ihb ihr =>
    obtain ⟨hcond, hbody, hrest⟩ := h.loop
    exact ⟨hcond.resolved, ihb hbody, ihr hrest⟩

/-! ## Programs without findings are resolved

No entry is lost where two nodes have one number, so that this needs no different numbers. -/

theorem ScopeTable.isSome_find? {scope : ScopeTable} {s : Symbol} (hs : IsName s.name)
    (h : scope.useFaults s = []) : (scope.find? s).isSome := by
  obtain ⟨info, hl⟩ := (useFaults_eq_nil_iff hs).1 h
  rw [find?_eq_lookup hs, hl]
  rfl

theorem Expr.resolved_of_faults {ann : Annotations} {scope : ScopeTable} {e : Expr} (hw : e.Whole)
    (hf : e.faults scope = []) (hk : e.Kept ann scope) : e.Resolved ann := by
  induction e with
  | binary n op l r ihl ihr =>
    simp only [faults, List.append_eq_nil_iff] at hf
    exact ⟨ihl hw.1 hf.1.1.1 hk.1, ihr hw.2 hf.1.1.2 hk.2⟩
  | unary n op e ih => exact ih hw (List.append_eq_nil_iff.1 hf).1 hk
  | bool | int => trivial
  | var n s => exact Option.isSome_iff_exists.1 (hk (ScopeTable.isSome_find? hw hf))
  | hole n => exact hw.elim

theorem Block.resolved_of_faults {ann : Annotations} {scope : ScopeTable} {b : Block}
    (hw : b.Whole) (hf : b.faults scope = []) (hk : b.Kept ann scope) : b.Resolved ann := by
  induction b generalizing scope with
  | done => trivial
  | declare d rest ih =>
    simp only [faults, Declaration.faults, List.append_eq_nil_iff] at hf
    exact ⟨Expr.resolved_of_faults hw.1 hf.1.1.1 hk.1, ih hw.2.2.2 hf.2 hk.2⟩
  | assign a rest ih =>
    simp only [faults, Assignment.faults, List.append_eq_nil_iff] at hf
    have htarget := hk.2.1 (ScopeTable.isSome_find? hw.2.1 hf.1.1.2)
    exact ⟨Expr.resolved_of_faults hw.1 hf.1.1.1 hk.1, Option.isSome_iff_exists.1 htarget,
      ih hw.2.2 hf.2 hk.2.2⟩
  | loop w body rest ihb ihr =>
    simp only [faults, List.append_eq_nil_iff] at hf
    exact ⟨Expr.resolved_of_faults hw.1 hf.1.1.1 hk.1, ihb hw.2.1 hf.1.2 hk.2.1,
      ihr hw.2.2 hf.2 hk.2.2⟩

/-- The tables of a program without findings have a declaration for every variable in it. -/
theorem Program.resolved_of_faults {p : Program} (hw : p.Whole) (hf : p.faults = []) :
    p.body.Resolved p.annotations ∧ p.result.Resolved p.annotations := by
  obtain ⟨hbody, hresult⟩ := List.append_eq_nil_iff.1 hf
  obtain ⟨hkb, hkr⟩ := p.kept_annotations
  exact ⟨Block.resolved_of_faults hw.1 hbody hkb, Expr.resolved_of_faults hw.2 hresult hkr⟩

end WhileLang
