import WhileLang.Proofs.Scope.History
import WhileLang.Proofs.Typing.Lexical
import WhileLang.Proofs.Typing.WellTyped

/-!
# `WhileLang/Proofs/Typing/Requests.lean` — the checker as requests to one table

The checker passes a scope from statement to statement and takes nothing back. Here the same is told
as **one table of scopes that is asked all along the tree**: each use of a name is looked up, each
declaration is made, and each body of a loop stands between the opening and the closing of a frame.

The table is then what the checker has as its scope (`Block.after_requests`), and what is reported
on the way are the findings of the checker about names, one for one (`Program.reports_requests`).
The requests are balanced, so what is known of a table from the history of its requests is known of
the scopes of the checker (`Program.isMeaning_finalScope`).
-/

set_option autoImplicit false

namespace WhileLang

open ScopeRequest

/-! ## What is asked -/

namespace Expr

/-- The uses of names in an expression, from left to right. -/
def requests : Expr → List ScopeRequest
  | .binary _ _ l r => l.requests ++ r.requests
  | .unary _ _ e => e.requests
  | .var _ s => [.find s]
  | .bool _ _ | .int _ _ | .hole _ => []

end Expr

namespace Block

/-- A name is declared after its first value was checked, and the target of an assignment is looked
up after its value was. -/
def requests : Block → List ScopeRequest
  | .done => []
  | .declare d rest => d.init.requests ++ .bind d.symbol d.info :: rest.requests
  | .assign a rest => a.value.requests ++ .find a.symbol :: rest.requests
  | .loop w body rest => w.cond.requests ++ (.push :: body.requests ++ [.pop]) ++ rest.requests

end Block

def Program.requests (p : Program) : List ScopeRequest :=
  p.body.requests ++ p.result.requests

namespace ScopeTable

/-- What is reported on the way through the requests. -/
def reports (t : ScopeTable) (rs : List ScopeRequest) : List Diagnostic :=
  (t.replies rs).flatMap (·.findings)

theorem reports_nil (t : ScopeTable) : t.reports [] = [] := rfl

theorem reports_cons (t : ScopeTable) (r : ScopeRequest) (rs : List ScopeRequest) :
    t.reports (r :: rs) = (t.perform r).1.findings ++ (t.perform r).2.reports rs := rfl

theorem reports_find (t : ScopeTable) (s : Symbol) (rs : List ScopeRequest) :
    t.reports (.find s :: rs) = t.useFaults s ++ t.reports rs := rfl

theorem reports_append (t : ScopeTable) (rs rs' : List ScopeRequest) :
    t.reports (rs ++ rs') = t.reports rs ++ (t.after rs).reports rs' := by
  rw [reports, replies_append, List.flatMap_append]
  rfl

theorem perform_declare (t : ScopeTable) (d : Declaration) :
    (t.perform (.bind d.symbol d.info)).2 = t.declare d ∧
      (t.perform (.bind d.symbol d.info)).1.findings = t.declareFaults d := by
  cases h : t.bind d.symbol d.info <;> simp [perform, declare, declareFaults, h]

end ScopeTable

/-! ## What the checker finds about names -/

/-- The findings that are not about types. -/
def aboutNames (ds : List Diagnostic) : List Diagnostic :=
  ds.filter (·.kind ≠ .typeMismatch)

theorem aboutNames_append (ds ds' : List Diagnostic) :
    aboutNames (ds ++ ds') = aboutNames ds ++ aboutNames ds' :=
  List.filter_append ..

theorem aboutNames_eq_nil {ds : List Diagnostic} (h : ∀ d ∈ ds, d.kind = .typeMismatch) :
    aboutNames ds = [] := by
  rw [aboutNames, List.filter_eq_nil_iff]
  intro d hd
  simp [h d hd]

theorem aboutNames_eq_self {ds : List Diagnostic} {k : DiagnosticKind}
    (h : ∀ d ∈ ds, d.kind = k) (hk : k ≠ .typeMismatch) : aboutNames ds = ds := by
  rw [aboutNames, List.filter_eq_self]
  intro d hd
  simpa [h d hd] using hk

theorem aboutNames_check (f : TypeFault) (span : Span) : aboutNames (f.check span) = [] :=
  aboutNames_eq_nil fun _ => TypeFault.kind_of_mem_check

theorem aboutNames_useFaults (t : ScopeTable) (s : Symbol) :
    aboutNames (t.useFaults s) = t.useFaults s :=
  aboutNames_eq_self (fun _ => ScopeTable.kind_of_mem_useFaults) (by simp)

theorem aboutNames_declareFaults (t : ScopeTable) (d : Declaration) :
    aboutNames (t.declareFaults d) = t.declareFaults d :=
  aboutNames_eq_self (fun _ => ScopeTable.kind_of_mem_declareFaults) (by simp)

/-! ## Expressions -/

namespace Expr

/-- To look names up leaves the table as it is. -/
theorem after_requests (scope : ScopeTable) (e : Expr) : scope.after e.requests = scope := by
  induction e with
  | binary n op l r ihl ihr => rw [requests, ScopeTable.after_append, ihl, ihr]
  | unary n op e ih => exact ih
  | bool | int | var | hole => rfl

theorem balanced_requests (e : Expr) : Balanced e.requests := by
  induction e with
  | binary n op l r ihl ihr => exact ihl.append ihr
  | unary n op e ih => exact ih
  | var n s => exact balanced_nil.cons (by simp) (by simp)
  | bool | int | hole => exact balanced_nil

theorem reports_requests (scope : ScopeTable) (e : Expr) :
    scope.reports e.requests = aboutNames (e.faults scope) := by
  induction e with
  | binary n op l r ihl ihr =>
    rw [requests, ScopeTable.reports_append, after_requests, ihl, ihr, faults]
    simp only [aboutNames_append, aboutNames_check, List.append_nil]
  | unary n op e ih =>
    rw [requests, ih, faults, aboutNames_append, aboutNames_check, List.append_nil]
  | var n s =>
    rw [faults, aboutNames_useFaults]
    exact List.append_nil _
  | bool | int | hole => rfl

end Expr

/-! ## Blocks -/

namespace Block

/-- **The table that was asked is the scope of the checker.** -/
theorem after_requests (scope : ScopeTable) (b : Block) :
    scope.after b.requests = b.scopeAfter scope := by
  induction b generalizing scope with
  | done => rfl
  | declare d rest ih =>
    rw [requests, ScopeTable.after_append, Expr.after_requests, scopeAfter,
      ← (scope.perform_declare d).1]
    exact ih _
  | assign a rest ih =>
    rw [requests, ScopeTable.after_append, Expr.after_requests]
    exact ih scope
  | loop w body rest ihb ihr =>
    -- the frame of the body is closed again, which gives back the scope from before it
    have hbody : scope.after (.push :: body.requests ++ [.pop]) = scope := by
      rw [ScopeTable.after_append]
      show (scope.push.after body.requests).pop = scope
      rw [ihb, pop_scopeAfter_push]
    rw [requests, ScopeTable.after_append, ScopeTable.after_append, Expr.after_requests, hbody]
    exact ihr scope

theorem balanced_requests (b : Block) : Balanced b.requests := by
  induction b with
  | done => exact balanced_nil
  | declare d rest ih => exact d.init.balanced_requests.append (ih.cons (by simp) (by simp))
  | assign a rest ih => exact a.value.balanced_requests.append (ih.cons (by simp) (by simp))
  | loop w body rest ihb ihr => exact (w.cond.balanced_requests.append ihb.enclose).append ihr

/-- **What is reported on the way is what the checker finds about names**, word for word and in the
same order. -/
theorem reports_requests (scope : ScopeTable) (b : Block) :
    scope.reports b.requests = aboutNames (b.faults scope) := by
  induction b generalizing scope with
  | done => rfl
  | declare d rest ih =>
    obtain ⟨hafter, hfindings⟩ := scope.perform_declare d
    rw [requests, ScopeTable.reports_append, Expr.after_requests, ScopeTable.reports_cons,
      hafter, hfindings, Expr.reports_requests, ih, faults, Declaration.faults]
    simp only [aboutNames_append, aboutNames_check, aboutNames_declareFaults, List.nil_append,
      List.append_assoc]
  | assign a rest ih =>
    obtain ⟨mismatches, hfaults, hkind⟩ := a.faults_eq scope
    rw [requests, ScopeTable.reports_append, Expr.after_requests, ScopeTable.reports_find,
      Expr.reports_requests, ih, faults, hfaults]
    simp only [aboutNames_append, aboutNames_useFaults, aboutNames_eq_nil hkind, List.nil_append,
      List.append_assoc]
  | loop w body rest ihb ihr =>
    have hbody : scope.reports (.push :: body.requests ++ [.pop]) =
        aboutNames (body.faults scope.push) := by
      rw [ScopeTable.reports_append, ScopeTable.reports_cons]
      exact (List.append_nil _).trans (ihb scope.push)
    have hafter : scope.after (.push :: body.requests ++ [.pop]) = scope :=
      body.balanced_requests.after_eq scope
    rw [requests, ScopeTable.reports_append, ScopeTable.reports_append, ScopeTable.after_append,
      Expr.after_requests, hafter, hbody, Expr.reports_requests, ihr, faults]
    simp only [aboutNames_append, aboutNames_check, List.append_nil]

end Block

/-! ## Programs -/

namespace Program

theorem balanced_requests (p : Program) : Balanced p.requests :=
  p.body.balanced_requests.append p.result.balanced_requests

/-- The scope of the result is the table that the body leaves of a new one. -/
theorem finalScope_eq_after (p : Program) :
    p.finalScope = ScopeTable.empty.after p.body.requests :=
  (p.body.after_requests .empty).symm

/-- **The checker complains about names as a table of scopes does** that is new and is asked all
along the program. -/
theorem reports_requests (p : Program) :
    ScopeTable.empty.reports p.requests = aboutNames p.faults := by
  rw [requests, ScopeTable.reports_append, ← finalScope_eq_after, Block.reports_requests,
    Expr.reports_requests, faults, aboutNames_append]

/-- In the result a name means what the history of the requests says. -/
theorem isMeaning_finalScope (p : Program) (x : String) :
    IsMeaning p.body.requests x (p.finalScope.lookup x) := by
  rw [finalScope_eq_after]
  exact (tracks_after p.body.requests).isMeaning x

end Program

end WhileLang
