import WhileLang.Proofs.Parser.Origin
import WhileLang.Proofs.Typing.Faults
import WhileLang.Proofs.Typing.WellTyped

/-!
# `WhileLang/Proofs/Typing/Origin.lean` — the checker stays in the file

A complaint of the checker is about an expression or a symbol, and its note about a declaration in
the scope. The scope has nothing that the walk did not come by, so **what is found in a program of
the file is about the file**, and is said in one line (`Program.InFile.faults`): the names that it
quotes were read, or are the text that stands for a missing one.
-/

set_option autoImplicit false

namespace WhileLang

variable {f : FileId}

/-! ## Names and scopes -/

theorem Ty.oneLine_text (t : Ty) : OneLine t.text := by
  cases t <;> decide

theorem UnaryOp.oneLine_text (op : UnaryOp) : OneLine op.text := by
  cases op <;> decide

namespace Symbol.InFile

variable {s : Symbol}

theorem span (h : s.InFile f) : s.span.file = f := by
  rcases h with h | h
  · exact h.span
  · exact h.1

theorem oneLine_name (h : s.InFile f) : OneLine s.name := by
  rcases h with h | ⟨-, he⟩
  · exact h.name.oneLine
  · rw [isError, decide_eq_true_eq] at he
    rw [he]
    decide

end Symbol.InFile

/-- What is known of a variable comes from the file. -/
structure DeclInfo.InFile (f : FileId) (info : DeclInfo) : Prop where
  span : info.span.file = f
  name : OneLine info.name

/-- All that is declared was declared in the file. -/
def ScopeTable.InFile (f : FileId) (t : ScopeTable) : Prop :=
  ∀ p ∈ Frames.entries t.frames, p.2.InFile f

namespace ScopeTable.InFile

variable {t : ScopeTable}

theorem empty : empty.InFile f := List.forall_mem_nil _

theorem push (h : t.InFile f) : t.push.InFile f := h

theorem declare (h : t.InFile f) {d : Declaration} (hd : d.symbol.InFile f) :
    (t.declare d).InFile f := by
  rcases t.declare_cases d with hs | hs
  · rw [hs]
    have hinfo : d.info.InFile f := ⟨hd.span, hd.oneLine_name⟩
    exact List.forall_mem_cons.2 ⟨hinfo, h⟩
  · rw [hs]
    exact h

theorem lookup (h : t.InFile f) {x : String} {info : DeclInfo} (hx : t.lookup x = some info) :
    info.InFile f := by
  rw [lookup_eq_read] at hx
  exact h _ (Frames.mem_entries_of_read hx)

end ScopeTable.InFile

/-! ## What is said -/

/-- The names that the fault quotes come from the file. -/
def TypeFault.InFile (f : FileId) : TypeFault → Prop
  | .initializer s _ _ => OneLine s.name
  | .assigned s target _ => OneLine s.name ∧ target.InFile f
  | .condition _ | .left _ _ | .right _ _ | .operand _ _ => True

theorem TypeFault.oneLine_demand (expected actual : Ty) : OneLine (demand expected actual) := by
  unfold demand
  simp only [oneLine_append, Ty.oneLine_text]
  decide

theorem TypeFault.InFile.oneLine_message {fault : TypeFault} (h : fault.InFile f) :
    OneLine fault.message := by
  cases fault with
  | initializer s expected actual =>
    have hname : OneLine s.name := h
    unfold message
    simp only [oneLine_append, oneLine_demand, hname]
    decide
  | assigned s target actual =>
    unfold message
    simp only [oneLine_append, oneLine_demand, h.1]
    decide
  | condition actual =>
    unfold message
    simp only [oneLine_append, oneLine_demand]
    decide
  | left op actual | right op actual =>
    unfold message
    simp only [oneLine_append, oneLine_demand, op.oneLine_text]
    decide
  | operand op actual =>
    unfold message
    simp only [oneLine_append, oneLine_demand, op.oneLine_text]
    decide

theorem TypeFault.InFile.diagnostic {fault : TypeFault} (h : fault.InFile f) {span : Span}
    (hspan : span.file = f) : (fault.diagnostic span).InFile f := by
  have herror := Diagnostic.inFile_error .typeMismatch hspan h.oneLine_message
  cases fault with
  | assigned s target actual =>
    obtain ⟨-, htarget⟩ := h
    refine herror.withNote htarget.span ?_
    simp only [oneLine_append, htarget.name]
    decide
  | initializer | condition | left | right | operand => exact herror

theorem TypeFault.InFile.check {fault : TypeFault} (h : fault.InFile f) {span : Span}
    (hspan : span.file = f) : ∀ d ∈ fault.check span, d.InFile f := by
  intro d hd
  rw [eq_of_mem_check hd]
  exact h.diagnostic hspan

theorem ScopeFault.inFile_redeclared {s : Symbol} (hs : s.InFile f) {prior : Span}
    (hprior : prior.file = f) : (redeclared s prior).diagnostic.InFile f := by
  have hname := hs.oneLine_name
  refine (Diagnostic.inFile_error _ hs.span ?_).withNote hprior ?_
  · simp only [oneLine_append, hname]
    decide
  · simp only [oneLine_append, hname]
    decide

theorem ScopeFault.inFile_undeclared {s : Symbol} (hs : s.InFile f) :
    (undeclared s).diagnostic.InFile f := by
  have hname := hs.oneLine_name
  refine Diagnostic.inFile_error _ hs.span ?_
  simp only [oneLine_append, hname]
  decide

theorem ScopeTable.inFile_useFaults (t : ScopeTable) {s : Symbol} (hs : s.InFile f) :
    ∀ d ∈ t.useFaults s, d.InFile f := by
  intro d hd
  rw [eq_of_mem_useFaults hd]
  exact ScopeFault.inFile_undeclared hs

theorem ScopeTable.InFile.declareFaults {t : ScopeTable} (h : t.InFile f) {d : Declaration}
    (hd : d.symbol.InFile f) : ∀ found ∈ t.declareFaults d, found.InFile f := by
  intro found hfound
  obtain ⟨prior, hprior, rfl⟩ := ScopeTable.exists_of_mem_declareFaults hfound
  have hlookup : t.lookup d.symbol.name = some prior := by
    rw [ScopeTable.lookup, frames, List.findSome?_cons, hprior]
  exact ScopeFault.inFile_redeclared hd (h.lookup hlookup).span

/-! ## What is found -/

theorem Expr.InFile.faults {e : Expr} (h : e.InFile f) (scope : ScopeTable) :
    ∀ d ∈ e.faults scope, d.InFile f := by
  induction e with
  | binary n op l r ihl ihr =>
    obtain ⟨-, hl, hr⟩ := h
    have hleft (t : Ty) : (TypeFault.left op t).InFile f := trivial
    have hright (t : Ty) : (TypeFault.right op t).InFile f := trivial
    rw [Expr.faults, List.forall_mem_append, List.forall_mem_append, List.forall_mem_append]
    exact ⟨⟨⟨ihl hl, ihr hr⟩, (hleft _).check hl.span⟩, (hright _).check hr.span⟩
  | unary n op e ih =>
    have hoperand (t : Ty) : (TypeFault.operand op t).InFile f := trivial
    rw [Expr.faults, List.forall_mem_append]
    exact ⟨ih h.2, (hoperand _).check h.2.span⟩
  | var n s => exact scope.inFile_useFaults (.inl h.2)
  | bool | int | hole => exact List.forall_mem_nil _

/-- Along a block the scope stays in the file, and so does what is found. -/
theorem Block.InFile.faults {b : Block} (h : b.InFile f) {scope : ScopeTable}
    (hscope : scope.InFile f) : ∀ d ∈ b.faults scope, d.InFile f := by
  induction b generalizing scope with
  | done => exact List.forall_mem_nil _
  | declare d rest ih =>
    obtain ⟨-, hsymbol, hinit, hrest⟩ := h
    have hmismatch : (TypeFault.initializer d.symbol d.ty (d.init.ty scope)).InFile f :=
      hsymbol.oneLine_name
    rw [Block.faults, Declaration.faults, List.forall_mem_append, List.forall_mem_append,
      List.forall_mem_append]
    exact ⟨⟨⟨hinit.faults scope, hmismatch.check hinit.span⟩, hscope.declareFaults hsymbol⟩,
      ih hrest (hscope.declare hsymbol)⟩
  | assign a rest ih =>
    obtain ⟨-, hsymbol, hvalue, hrest⟩ := h
    rw [Block.faults, Assignment.faults, List.forall_mem_append, List.forall_mem_append,
      List.forall_mem_append]
    refine ⟨⟨⟨hvalue.faults scope, scope.inFile_useFaults (.inl hsymbol)⟩, ?_⟩, ih hrest hscope⟩
    rw [ScopeTable.find?_eq_lookup hsymbol.name]
    cases hl : scope.lookup a.symbol.name with
    | none => exact List.forall_mem_nil _
    | some target =>
      have hmismatch : (TypeFault.assigned a.symbol target (a.value.ty scope)).InFile f :=
        ⟨hsymbol.name.oneLine, hscope.lookup hl⟩
      exact hmismatch.check hvalue.span
  | loop w body rest ihb ihr =>
    obtain ⟨-, -, hcond, hbody, hrest⟩ := h
    have hmismatch : (TypeFault.condition (w.cond.ty scope)).InFile f := trivial
    rw [Block.faults, List.forall_mem_append, List.forall_mem_append, List.forall_mem_append]
    exact ⟨⟨⟨hcond.faults scope, hmismatch.check hcond.span⟩, ihb hbody hscope.push⟩,
      ihr hrest hscope⟩

/-- **What is found in a program of the file is about the file**, and is said in one line. -/
theorem Program.InFile.faults {p : Program} (h : p.InFile f) : ∀ d ∈ p.faults, d.InFile f := by
  have hscope : ScopeTable.empty.InFile f := .empty
  rw [Program.faults, List.forall_mem_append]
  exact ⟨h.body.faults hscope, h.result.faults _⟩

end WhileLang
