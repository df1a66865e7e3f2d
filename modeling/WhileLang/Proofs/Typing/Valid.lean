import Mathlib.Data.List.Nodup
import WhileLang.Proofs.Typing.Resolution
import WhileLang.Proofs.Typing.WellTyped

/-!
# `WhileLang/Proofs/Typing/Valid.lean` — what later phases need of a program

Whoever runs or compiles a program needs the same of it, and of each of its parts: nothing is
missing, the types are right, the tables say what the checker says, and **no two declarations have
one number**. This is `Valid`, and for every form of expression and statement it is said here what
the parts of a valid one are.
-/

set_option autoImplicit false

namespace WhileLang

/-! ## The numbers in a scope -/

/-- The numbers of the visible declarations, and of those they hide. -/
def ScopeTable.declNumbers (scope : ScopeTable) : List UInt32 :=
  (Frames.entries scope.frames).map (·.2.decl.index)

namespace ScopeTable

theorem declNumbers_extend (scope : ScopeTable) (d : Declaration) :
    (scope.extend d).declNumbers = d.decl.index :: scope.declNumbers := rfl

theorem mem_declNumbers {scope : ScopeTable} {p : String × DeclInfo}
    (h : p ∈ Frames.entries scope.frames) : p.2.decl.index ∈ scope.declNumbers :=
  List.mem_map_of_mem (f := fun p : String × DeclInfo => p.2.decl.index) h

end ScopeTable

/-! ## Expressions -/

/-- What is needed of an expression in a scope. -/
structure Expr.Valid (ann : Annotations) (scope : ScopeTable) (e : Expr) (ty : Ty) : Prop where
  typed : e.HasTy scope.types ty
  whole : e.Whole
  recorded : e.Recorded ann scope

namespace Expr.Valid

variable {ann : Annotations} {scope : ScopeTable} {n : Node} {ty : Ty}

theorem binary {op : BinaryOp} {l r : Expr} (h : (Expr.binary n op l r).Valid ann scope ty) :
    l.Valid ann scope op.operand ∧ r.Valid ann scope op.operand ∧ op.result = ty := by
  obtain ⟨ht, hw, hr⟩ := h
  have hl : l.Recorded ann scope := fun x hx => hr x (by simp [nodes, hx])
  have hr : r.Recorded ann scope := fun x hx => hr x (by simp [nodes, hx])
  cases ht with
  | binary htl htr => exact ⟨⟨htl, hw.1, hl⟩, ⟨htr, hw.2, hr⟩, rfl⟩

theorem unary {op : UnaryOp} {e : Expr} (h : (Expr.unary n op e).Valid ann scope ty) :
    e.Valid ann scope op.operand ∧ op.operand = ty := by
  obtain ⟨ht, hw, hr⟩ := h
  have hr : e.Recorded ann scope := fun x hx => hr x (by simp [nodes, hx])
  cases ht with
  | unary ht => exact ⟨⟨ht, hw, hr⟩, rfl⟩

theorem bool {b : Bool} (h : (Expr.bool n b).Valid ann scope ty) : .bool = ty := by
  cases h.typed
  rfl

theorem int {v : Int64} (h : (Expr.int n v).Valid ann scope ty) : .int = ty := by
  cases h.typed
  rfl

/-- A variable is in scope, and the tables have its declaration. -/
theorem var {s : Symbol} (h : (Expr.var n s).Valid ann scope ty) :
    ∃ info, scope.lookup s.name = some info ∧ info.ty = ty ∧
      ann.binding? n.id = some info.decl := by
  obtain ⟨ht, hw, hr⟩ := h
  have hbind := (hr _ (self_mem_nodes _)).2 n s rfl
  cases ht with
  | var hx =>
    rw [ScopeTable.read_types, Option.map_eq_some_iff] at hx
    obtain ⟨info, hx, rfl⟩ := hx
    rw [ScopeTable.find?_eq_lookup hw, hx] at hbind
    exact ⟨info, hx, rfl, hbind⟩

end Expr.Valid

/-! ## Blocks -/

/-- What is needed of a block in a scope. -/
structure Block.Valid (ann : Annotations) (scope : ScopeTable) (b : Block) : Prop where
  typed : ∃ Γ, b.WellTyped scope.types Γ
  whole : b.Whole
  recorded : b.Recorded ann scope
  distinct : (scope.declNumbers ++ b.declNumbers).Nodup

namespace Block.Valid

variable {ann : Annotations} {scope : ScopeTable} {rest : Block}

theorem nodup {b : Block} (h : b.Valid ann scope) : scope.declNumbers.Nodup :=
  (List.nodup_append.1 h.distinct).1

/-- A declaration is not refused, and it is a new one. -/
theorem declare {d : Declaration} (h : (Block.declare d rest).Valid ann scope) :
    d.init.Valid ann scope d.ty ∧ d.decl.index ∉ scope.declNumbers ∧
      scope.declare d = scope.extend d ∧ rest.Valid ann (scope.extend d) := by
  obtain ⟨⟨Γ, ht⟩, ⟨hwi, -, hs, hwr⟩, ⟨hri, -, hrr⟩, hd⟩ := h
  cases ht with
  | declare hinit hnew hrest =>
    rw [ScopeTable.lookup_top_types, Option.map_eq_none_iff] at hnew
    have hdecl := ScopeTable.declare_eq_extend hs hnew
    rw [hdecl] at hrr
    have hfresh : d.decl.index ∉ scope.declNumbers := fun h =>
      (List.nodup_append.1 hd).2.2 _ h _ (List.mem_cons_self ..) rfl
    have hd' : ((scope.extend d).declNumbers ++ rest.declNumbers).Nodup := by
      rw [ScopeTable.declNumbers_extend, List.cons_append]
      exact (List.perm_middle.nodup_iff).1 hd
    exact ⟨⟨hinit, hwi, hri⟩, hfresh, hdecl, ⟨_, hrest⟩, hwr, hrr, hd'⟩

/-- The variable that is assigned to is in scope, and the tables have its declaration. -/
theorem assign {a : Assignment} (h : (Block.assign a rest).Valid ann scope) :
    ∃ info, scope.lookup a.symbol.name = some info ∧ a.value.Valid ann scope info.ty ∧
      ann.binding? a.node.id = some info.decl ∧ rest.Valid ann scope := by
  obtain ⟨⟨Γ, ht⟩, ⟨hwv, hs, hwr⟩, ⟨hrv, hbind, hrr⟩, hd⟩ := h
  cases ht with
  | assign hx hvalue hrest =>
    rw [ScopeTable.read_types, Option.map_eq_some_iff] at hx
    obtain ⟨info, hx, rfl⟩ := hx
    rw [ScopeTable.find?_eq_lookup hs, hx] at hbind
    exact ⟨info, hx, ⟨hvalue, hwv, hrv⟩, hbind, ⟨_, hrest⟩, hwr, hrr, hd⟩

theorem loop {w : LoopHead} {body : Block} (h : (Block.loop w body rest).Valid ann scope) :
    w.cond.Valid ann scope .bool ∧ body.Valid ann scope.push ∧ rest.Valid ann scope := by
  obtain ⟨⟨Γ, ht⟩, ⟨hwc, hwb, hwr⟩, ⟨hrc, hrb, hrr⟩, hd⟩ := h
  cases ht with
  | loop hcond hbody hrest =>
    have hdb : (scope.push.declNumbers ++ body.declNumbers).Nodup := by
      rw [declNumbers, ← List.append_assoc] at hd
      exact (List.nodup_append.1 hd).1
    have hdr : (scope.declNumbers ++ rest.declNumbers).Nodup :=
      hd.sublist ((List.Sublist.refl _).append (List.sublist_append_right ..))
    exact ⟨⟨hcond, hwc, hrc⟩, ⟨⟨_, hbody⟩, hwb, hrb, hdb⟩, ⟨_, hrest⟩, hwr, hrr, hdr⟩

/-- The declarations at the end of a block have different numbers. -/
theorem nodup_scopeAfter {b : Block} (h : b.Valid ann scope) :
    (b.scopeAfter scope).declNumbers.Nodup := by
  induction b generalizing scope with
  | done => exact h.nodup
  | declare d rest ih =>
    obtain ⟨-, -, hdecl, hrest⟩ := h.declare
    rw [scopeAfter, hdecl]
    exact ih hrest
  | assign a rest ih =>
    obtain ⟨_, -, -, -, hrest⟩ := h.assign
    exact ih hrest
  | loop w body rest _ ih => exact ih h.loop.2.2

end Block.Valid

/-! ## Programs -/

/-- What is needed of a program for running and compiling it: nothing in it is missing, the checker
finds nothing, the tables say of each node what the checker says, and no two declarations have one
number. -/
structure Program.Valid (ann : Annotations) (p : Program) : Prop where
  whole : p.Whole
  faults : p.faults = []
  recorded : p.Recorded ann
  distinct : p.body.declNumbers.Nodup

namespace Program.Valid

variable {ann : Annotations} {p : Program}

theorem body (h : p.Valid ann) : p.body.Valid ann .empty :=
  ⟨⟨_, (wellTyped_of_faults h.whole h.faults).1⟩, h.whole.1, h.recorded.1, h.distinct⟩

theorem result (h : p.Valid ann) :
    p.result.Valid ann p.finalScope (p.result.ty p.finalScope) :=
  ⟨(wellTyped_of_faults h.whole h.faults).2, h.whole.2, h.recorded.2⟩

/-- The tables have for the result the type that the checker gives it. -/
theorem tyOf_result (h : p.Valid ann) : ann.tyOf p.result = p.result.ty p.finalScope := by
  have hres := (h.recorded.2 _ (Expr.self_mem_nodes p.result)).1
  rw [Annotations.tyOf, hres]
  rfl

end Program.Valid

end WhileLang
