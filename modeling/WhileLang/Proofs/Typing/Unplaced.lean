import WhileLang.Proofs.Token.Unplaced
import WhileLang.Proofs.Tree.Unplaced
import WhileLang.Typing.Annotations

/-!
# `WhileLang/Proofs/Typing/Unplaced.lean` — the checker does not look at places

Scopes and findings have places in them, since a finding shows where the first declaration of a
name stands. None of them is ever asked for but to be shown. So the checker finds **the same faults
in an unplaced tree**, unplaced, and its tables of types and bindings are the same.
-/

set_option autoImplicit false

namespace WhileLang

/-! ## Scopes -/

def DeclInfo.unplaced (i : DeclInfo) : DeclInfo := { i with span := default }

def Frame.unplaced (f : Frame) : Frame := f.map fun entry => (entry.1, entry.2.unplaced)

def ScopeTable.unplaced (t : ScopeTable) : ScopeTable :=
  ⟨Frame.unplaced t.inner, t.outer.map Frame.unplaced⟩

def ScopeFault.unplaced : ScopeFault → ScopeFault
  | .redeclared s _ => .redeclared s.unplaced default
  | .undeclared s => .undeclared s.unplaced

theorem ScopeFault.diagnostic_unplaced (f : ScopeFault) :
    f.unplaced.diagnostic = f.diagnostic.unplaced := by
  cases f <;> rfl

theorem Frame.lookup_unplaced (f : Frame) (x : String) :
    (Frame.unplaced f).lookup x = (f.lookup x).map DeclInfo.unplaced := by
  induction f with
  | nil => rfl
  | cons entry f ih =>
    show ((entry.1, entry.2.unplaced) :: Frame.unplaced f).lookup x = _
    rw [List.lookup_cons, List.lookup_cons]
    split
    · rfl
    · exact ih

namespace ScopeTable

theorem push_unplaced (t : ScopeTable) : t.unplaced.push = t.push.unplaced := rfl

theorem lookup_unplaced (t : ScopeTable) (x : String) :
    t.unplaced.lookup x = (t.lookup x).map DeclInfo.unplaced := by
  show (t.frames.map Frame.unplaced).findSome? (·.lookup x) = _
  rw [List.findSome?_map, lookup]
  induction t.frames with
  | nil => rfl
  | cons f fs ih =>
    rw [List.findSome?_cons, List.findSome?_cons, Function.comp_apply, Frame.lookup_unplaced]
    cases f.lookup x with
    | none => exact ih
    | some i => rfl

theorem find_unplaced (t : ScopeTable) (s : Symbol) : t.unplaced.find s.unplaced =
    ((t.find s).map (Option.map DeclInfo.unplaced)).mapError ScopeFault.unplaced := by
  have hlookup : t.unplaced.lookup s.unplaced.name = (t.lookup s.name).map DeclInfo.unplaced :=
    t.lookup_unplaced s.name
  have herror : s.unplaced.isError = s.isError := rfl
  unfold find
  rw [herror, hlookup]
  by_cases he : s.isError = true
  · rw [if_pos he, if_pos he]
    rfl
  · rw [if_neg he, if_neg he]
    cases t.lookup s.name <;> rfl

theorem bind_unplaced (t : ScopeTable) (s : Symbol) (i : DeclInfo) :
    t.unplaced.bind s.unplaced i.unplaced =
      ((t.bind s i).map ScopeTable.unplaced).mapError ScopeFault.unplaced := by
  have hlookup : t.unplaced.inner.lookup s.unplaced.name =
      (t.inner.lookup s.name).map DeclInfo.unplaced := Frame.lookup_unplaced _ _
  have herror : s.unplaced.isError = s.isError := rfl
  unfold bind
  rw [herror, hlookup]
  by_cases he : s.isError = true
  · rw [if_pos he, if_pos he]
    rfl
  · rw [if_neg he, if_neg he]
    cases t.inner.lookup s.name <;> rfl

theorem find?_unplaced (t : ScopeTable) (s : Symbol) :
    t.unplaced.find? s.unplaced = (t.find? s).map DeclInfo.unplaced := by
  unfold find?
  rw [find_unplaced]
  cases t.find s <;> rfl

theorem useFaults_unplaced (t : ScopeTable) (s : Symbol) :
    t.unplaced.useFaults s.unplaced = (t.useFaults s).map Diagnostic.unplaced := by
  unfold useFaults
  rw [find_unplaced]
  cases t.find s with
  | ok i => rfl
  | error fault => exact congrArg ([·]) fault.diagnostic_unplaced

theorem declare_unplaced (t : ScopeTable) (d : Declaration) :
    t.unplaced.declare d.unplaced = (t.declare d).unplaced := by
  have hbind := t.bind_unplaced d.symbol d.info
  change t.unplaced.bind d.unplaced.symbol d.unplaced.info = _ at hbind
  unfold declare
  rw [hbind]
  cases t.bind d.symbol d.info <;> rfl

theorem declareFaults_unplaced (t : ScopeTable) (d : Declaration) :
    t.unplaced.declareFaults d.unplaced = (t.declareFaults d).map Diagnostic.unplaced := by
  have hbind := t.bind_unplaced d.symbol d.info
  change t.unplaced.bind d.unplaced.symbol d.unplaced.info = _ at hbind
  unfold declareFaults
  rw [hbind]
  cases t.bind d.symbol d.info with
  | ok t' => rfl
  | error fault => exact congrArg ([·]) fault.diagnostic_unplaced

end ScopeTable

/-! ## Findings -/

def TypeFault.unplaced : TypeFault → TypeFault
  | .initializer s expected actual => .initializer s.unplaced expected actual
  | .assigned s target actual => .assigned s.unplaced target.unplaced actual
  | f => f

theorem TypeFault.check_unplaced (f : TypeFault) (span : Span) :
    f.unplaced.check default = (f.check span).map Diagnostic.unplaced := by
  have hfits : f.unplaced.actual.fits f.unplaced.expected = f.actual.fits f.expected := by
    cases f <;> rfl
  have hdiagnostic : f.unplaced.diagnostic default = (f.diagnostic span).unplaced := by
    cases f <;> rfl
  unfold check
  rw [hfits, hdiagnostic]
  split <;> rfl

namespace Expr

theorem ty_unplaced (scope : ScopeTable) (e : Expr) :
    e.unplaced.ty scope.unplaced = e.ty scope := by
  cases e with
  | var n s =>
    rw [unplaced, ty, ty, ScopeTable.find?_unplaced]
    cases scope.find? s <;> rfl
  | binary | unary | bool | int | hole => rfl

theorem faults_unplaced (scope : ScopeTable) (e : Expr) :
    e.unplaced.faults scope.unplaced = (e.faults scope).map Diagnostic.unplaced := by
  induction e with
  | binary n op l r ihl ihr =>
    simp only [unplaced, faults, List.map_append, ihl, ihr, ty_unplaced, span_unplaced,
      ← TypeFault.check_unplaced]
    rfl
  | unary n op e ih =>
    simp only [unplaced, faults, List.map_append, ih, ty_unplaced, span_unplaced,
      ← TypeFault.check_unplaced]
    rfl
  | var n s => exact scope.useFaults_unplaced s
  | bool n b | int n v | hole n => rfl

end Expr

theorem Declaration.faults_unplaced (scope : ScopeTable) (d : Declaration) :
    d.unplaced.faults scope.unplaced = (d.faults scope).map Diagnostic.unplaced := by
  simp only [faults, List.map_append, ← ScopeTable.declareFaults_unplaced,
    ← Expr.faults_unplaced, ← TypeFault.check_unplaced]
  simp only [unplaced, Expr.ty_unplaced, Expr.span_unplaced]
  rfl

theorem Assignment.faults_unplaced (scope : ScopeTable) (a : Assignment) :
    a.unplaced.faults scope.unplaced = (a.faults scope).map Diagnostic.unplaced := by
  simp only [faults, unplaced, List.map_append, Expr.faults_unplaced,
    ScopeTable.useFaults_unplaced, ScopeTable.find?_unplaced, Expr.ty_unplaced,
    Expr.span_unplaced]
  cases scope.find? a.symbol with
  | none => rfl
  | some target =>
    exact congrArg _ (TypeFault.check_unplaced (.assigned a.symbol target _) a.value.span)

namespace Block

theorem faults_unplaced (scope : ScopeTable) (b : Block) :
    b.unplaced.faults scope.unplaced = (b.faults scope).map Diagnostic.unplaced := by
  induction b generalizing scope with
  | done => rfl
  | declare d rest ih =>
    simp only [unplaced, faults, List.map_append, Declaration.faults_unplaced,
      ScopeTable.declare_unplaced, ih]
  | assign a rest ih =>
    simp only [unplaced, faults, List.map_append, Assignment.faults_unplaced, ih]
  | loop w body rest ihb ihr =>
    simp only [unplaced, faults, List.map_append, LoopHead.unplaced, Expr.faults_unplaced,
      Expr.ty_unplaced, Expr.span_unplaced, ScopeTable.push_unplaced, ihb, ihr,
      ← TypeFault.check_unplaced]
    rfl

theorem scopeAfter_unplaced (scope : ScopeTable) (b : Block) :
    b.unplaced.scopeAfter scope.unplaced = (b.scopeAfter scope).unplaced := by
  induction b generalizing scope with
  | done => rfl
  | declare d rest ih => rw [unplaced, scopeAfter, ScopeTable.declare_unplaced, ih, scopeAfter]
  | assign a rest ih => exact ih scope
  | loop w body rest ihb ihr => exact ihr scope

end Block

theorem Program.finalScope_unplaced (p : Program) :
    p.unplaced.finalScope = p.finalScope.unplaced :=
  Block.scopeAfter_unplaced .empty p.body

/-- **The checker finds the same in an unplaced program**, unplaced. -/
theorem Program.faults_unplaced (p : Program) :
    p.unplaced.faults = p.faults.map Diagnostic.unplaced := by
  have hbody : p.unplaced.body.faults .empty = (p.body.faults .empty).map Diagnostic.unplaced :=
    Block.faults_unplaced .empty p.body
  have hresult : p.unplaced.result.faults p.unplaced.finalScope =
      (p.result.faults p.finalScope).map Diagnostic.unplaced := by
    rw [finalScope_unplaced]
    exact Expr.faults_unplaced p.finalScope p.result
  rw [faults, hbody, hresult, faults, List.map_append]

/-! ## Tables -/

/-- Two annotations that differ in places only: those of the declarations. -/
structure Annotations.Agree (a a' : Annotations) : Prop where
  types : a'.types = a.types
  bindings : a'.bindings = a.bindings
  decls : ∀ d, (a'.decl? d).map DeclInfo.unplaced = (a.decl? d).map DeclInfo.unplaced

namespace Annotations.Agree

variable {a a' a₁ : Annotations}

theorem refl (a : Annotations) : a.Agree a := ⟨rfl, rfl, fun _ => rfl⟩

theorem symm (h : a.Agree a') : a'.Agree a :=
  ⟨h.types.symm, h.bindings.symm, fun d => (h.decls d).symm⟩

theorem trans (h : a.Agree a') (h₁ : a'.Agree a₁) : a.Agree a₁ :=
  ⟨h₁.types.trans h.types, h₁.bindings.trans h.bindings, fun d => (h₁.decls d).trans (h.decls d)⟩

theorem setTy (h : a.Agree a') (n : NodeId) (t : Ty) : (a.setTy n t).Agree (a'.setTy n t) where
  types := congrArg (·.insert n.index t) h.types
  bindings := h.bindings
  decls := h.decls

theorem bind (h : a.Agree a') (scope : ScopeTable) (n : NodeId) (s : Symbol) :
    (a.bind scope n s).Agree (a'.bind scope.unplaced n s.unplaced) := by
  unfold Annotations.bind
  rw [ScopeTable.find?_unplaced]
  cases scope.find? s with
  | none => exact h
  | some info =>
    exact {
      types := h.types
      bindings := congrArg (·.insert n.index info.decl) h.bindings
      decls := h.decls }

theorem setDecl (h : a.Agree a') (d : Declaration) :
    (a.setDecl d).Agree (a'.setDecl d.unplaced) where
  types := h.types
  bindings := h.bindings
  decls := by
    intro d'
    show ((a'.decls.insert d.decl.index d.unplaced.info)[d'.index]?).map DeclInfo.unplaced =
      ((a.decls.insert d.decl.index d.info)[d'.index]?).map DeclInfo.unplaced
    rw [Std.TreeMap.getElem?_insert, Std.TreeMap.getElem?_insert]
    by_cases hd : compare d.decl.index d'.index = .eq
    · rw [if_pos hd, if_pos hd]
      rfl
    · rw [if_neg hd, if_neg hd]
      exact h.decls d'

end Annotations.Agree

theorem Expr.agree_annotate (scope : ScopeTable) (e : Expr) {a a' : Annotations} (h : a.Agree a') :
    (e.annotate scope a).Agree (e.unplaced.annotate scope.unplaced a') := by
  induction e generalizing a a' with
  | binary n op l r ihl ihr => exact (ihr (ihl h)).setTy n.id op.result
  | unary n op e ih => exact (ih h).setTy n.id op.operand
  | bool n b => exact h.setTy n.id .bool
  | int n v => exact h.setTy n.id .int
  | hole n => exact h.setTy n.id .unknown
  | var n s =>
    have hty := ty_unplaced scope (.var n s)
    unfold annotate
    rw [id_unplaced, hty]
    exact (h.bind scope n.id s).setTy n.id _

theorem Block.agree_annotate (scope : ScopeTable) (b : Block) {a a' : Annotations}
    (h : a.Agree a') : (b.annotate scope a).Agree (b.unplaced.annotate scope.unplaced a') := by
  induction b generalizing scope a a' with
  | done => exact h
  | declare d rest ih =>
    have hrest := ih (scope.declare d) ((d.init.agree_annotate scope h).setDecl d)
    rw [← ScopeTable.declare_unplaced] at hrest
    exact hrest
  | assign s rest ih =>
    exact ih scope ((s.value.agree_annotate scope h).bind scope s.node.id s.symbol)
  | loop w body rest ihb ihr => exact ihr scope (ihb scope.push (w.cond.agree_annotate scope h))

/-- **The checker's tables for an unplaced program** are its tables for the program. -/
theorem Program.agree_annotations (p : Program) : p.annotations.Agree p.unplaced.annotations := by
  have hbody := Block.agree_annotate .empty p.body (.refl .empty)
  have hresult := Expr.agree_annotate p.finalScope p.result hbody
  rw [← finalScope_unplaced] at hresult
  exact hresult

end WhileLang
