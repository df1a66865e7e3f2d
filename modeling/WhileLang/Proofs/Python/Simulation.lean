import WhileLang.Proofs.Evaluation.Agreement
import WhileLang.Proofs.Evaluation.Operations
import WhileLang.Proofs.Python.Machine
import WhileLang.Proofs.Python.Parsed

/-!
# `WhileLang/Proofs/Python/Simulation.lean` — a program and its Python code go in step

A block is run by the evaluator, and what it was compiled to is run as Python. Before and after
every statement the variables of Python show the store (`Env.Shows`): each declaration that is in
scope, **hidden or not**, has a variable with its value. There is one scope for all variables, and
what keeps them apart is their names, in which the declarations have their numbers. A variable stays
when its block is over; nobody asks for it, and the next round of a loop assigns to it before it is
read.

No integer of Python wraps, so both runs compute the same as long as no exact result leaves 64 bits.
They are then in step: they come to the same end, or neither comes to one (`Block.run_pyCode`).
-/

set_option autoImplicit false

namespace WhileLang.Python

/-! ## Values -/

/-- What a value is in Python. -/
def Value.of : WhileLang.Value → Value
  | .int v => .int v.toInt
  | .bool b => .bool b

/-- An exact result is the right one when 64 bits have it. -/
theorem Value.int_eq_of {n : Int} (hn : Within64 n) {v : Int64}
    (hv : v.toInt = n.bmod 18446744073709551616) : Value.int n = .of (.int v) := by
  rw [of, hv, hn.bmod_eq]

theorem Value.bool_eq_of {p q : Prop} [Decidable p] [Decidable q] (h : p ↔ q) :
    Value.bool q = .of (.bool p) := by
  rw [of, decide_eq_decide.2 h]

/-- **An operator on integers** makes what the evaluator's makes, when 64 bits have the exact
result. -/
theorem Value.binary_of {op : BinaryOp} (hop : op.operand = .int) {v w u : WhileLang.Value}
    (hv : v.ty = .int) (hw : w.ty = .int) (hu : op.apply v w = .ok u)
    (hexact : ∀ n ∈ op.exact (.ok v) (.ok w), Within64 n) :
    Value.binary op (.of v) (.of w) = .ok (.of u) := by
  obtain ⟨a, rfl⟩ := Value.ty_eq_int.1 hv
  obtain ⟨b, rfl⟩ := Value.ty_eq_int.1 hw
  cases op with
  | add =>
    obtain rfl := Except.ok.inj hu
    simp only [BinaryOp.exact, List.forall_mem_singleton] at hexact
    exact congrArg Except.ok (int_eq_of hexact (Int64.toInt_add a b))
  | sub =>
    obtain rfl := Except.ok.inj hu
    simp only [BinaryOp.exact, List.forall_mem_singleton] at hexact
    exact congrArg Except.ok (int_eq_of hexact (Int64.toInt_sub a b))
  | mul =>
    obtain rfl := Except.ok.inj hu
    simp only [BinaryOp.exact, List.forall_mem_singleton] at hexact
    exact congrArg Except.ok (int_eq_of hexact (Int64.toInt_mul a b))
  | eq =>
    obtain rfl := Except.ok.inj hu
    exact congrArg Except.ok (bool_eq_of Int64.toInt_inj.symm)
  | ne =>
    obtain rfl := Except.ok.inj hu
    exact congrArg Except.ok (bool_eq_of (not_congr Int64.toInt_inj.symm))
  | lt | gt =>
    obtain rfl := Except.ok.inj hu
    exact congrArg Except.ok (bool_eq_of Int64.lt_iff_toInt_lt)
  | le | ge =>
    obtain rfl := Except.ok.inj hu
    exact congrArg Except.ok (bool_eq_of Int64.le_iff_toInt_le)
  | and | or => cases hop

theorem Value.unary_of {op : UnaryOp} {v u : WhileLang.Value} (hv : v.ty = op.operand)
    (hu : op.apply v = .ok u) (hexact : ∀ n ∈ op.exact (.ok v), Within64 n) :
    Value.unary op (.of v) = .ok (.of u) := by
  cases op with
  | plus =>
    obtain ⟨a, rfl⟩ := Value.ty_eq_int.1 hv
    obtain rfl := Except.ok.inj hu
    rfl
  | neg =>
    obtain ⟨a, rfl⟩ := Value.ty_eq_int.1 hv
    obtain rfl := Except.ok.inj hu
    simp only [UnaryOp.exact, List.forall_mem_singleton] at hexact
    exact congrArg Except.ok (int_eq_of hexact (Int64.toInt_neg a))
  | not =>
    obtain ⟨b, rfl⟩ := Value.ty_eq_bool.1 hv
    obtain rfl := Except.ok.inj hu
    rfl

/-! ## Expressions -/

/-- Every declaration in scope has a variable with its value. -/
def Env.Shows (env : Env) (scope : ScopeTable) (store : Store) : Prop :=
  ∀ p ∈ Frames.entries scope.frames, ∃ v, store[p.2.decl.index]? = some v ∧ v.ty = p.2.ty ∧
    env.lookup (Target.varName p.1 p.2.decl) = some (.of v)

/-- A connective makes what the evaluator's makes. When the first operand decides, the second one
would make no difference. -/
theorem eval_connective {op : BinaryOp} (hop : op.operand = .bool) {env : Env} {l r : Term}
    {v w u : WhileLang.Value} (hv : v.ty = .bool) (hw : w.ty = .bool) (hu : op.apply v w = .ok u)
    (hl : l.eval env = .ok (.of v)) (hr : r.eval env = .ok (.of w)) :
    Term.eval env (.binary op l r) = .ok (.of u) := by
  obtain ⟨a, rfl⟩ := Value.ty_eq_bool.1 hv
  obtain ⟨b, rfl⟩ := Value.ty_eq_bool.1 hw
  cases op with
  | and | or =>
    obtain rfl := Except.ok.inj hu
    rw [Term.eval, hl]
    cases a
    · first | exact hr | rfl
    · first | exact hr | rfl
  | _ => cases hop

theorem eval_operation {op : BinaryOp} (hop : op.operand = .int) {env : Env} {l r : Term}
    {v w u : WhileLang.Value} (hv : v.ty = .int) (hw : w.ty = .int) (hu : op.apply v w = .ok u)
    (hexact : ∀ n ∈ op.exact (.ok v) (.ok w), Within64 n)
    (hl : l.eval env = .ok (.of v)) (hr : r.eval env = .ok (.of w)) :
    Term.eval env (.binary op l r) = .ok (.of u) := by
  have heval : Term.eval env (.binary op l r) =
      l.eval env >>= fun v => r.eval env >>= fun w => Value.binary op v w := by
    cases op with
    | and | or => cases hop
    | _ => rfl
  rw [heval, hl, hr]
  exact Value.binary_of hop hv hw hu hexact

/-- The digits of an integer, with a minus sign before them if it is negative. -/
theorem eval_pyTerm_int (ann : Annotations) (env : Env) (n : Node) (v : Int64) :
    ((Expr.int n v).pyTerm ann).eval env = .ok (.of (.int v)) := by
  have hneg : v < 0 ↔ v.toInt < 0 := by simp [Int64.lt_iff_toInt_lt]
  rw [Expr.pyTerm]
  split
  · rename_i h
    have habs : -((v.toInt.natAbs : Nat) : Int) = v.toInt := by
      rw [hneg] at h
      omega
    exact congrArg (Except.ok ∘ Value.int) habs
  · rename_i h
    have habs : ((v.toInt.natAbs : Nat) : Int) = v.toInt := by
      rw [hneg] at h
      omega
    exact congrArg (Except.ok ∘ Value.int) habs

end WhileLang.Python

namespace WhileLang

namespace Expr

variable {ann : Annotations} {scope : ScopeTable} {store : Store}

/-- **The value of an expression in Python** is the one that the evaluator computes, if the exact
results stay within 64 bits. -/
theorem pyTerm_eval {env : Python.Env} (hs : env.Shows scope store) {e : Expr} {ty : Ty}
    (h : e.Valid ann scope ty) (hexact : e.Exact ann store) :
    ∃ v, e.eval ann store = .ok v ∧ v.ty = ty ∧ (e.pyTerm ann).eval env = .ok (.of v) := by
  induction e generalizing ty with
  | binary n op l r ihl ihr =>
    obtain ⟨hl, hr, rfl⟩ := h.binary
    obtain ⟨hel, her, heop⟩ := exact_binary.1 hexact
    obtain ⟨v, hv, hvt, hvp⟩ := ihl hl hel
    obtain ⟨w, hw, hwt, hwp⟩ := ihr hr her
    obtain ⟨u, hu, hut⟩ := BinaryOp.apply_eq_ok hvt hwt
    refine ⟨u, by rw [eval, hv, hw]; exact hu, hut, ?_⟩
    rw [hv, hw] at heop
    by_cases hop : op.operand = .int
    · rw [hop] at hvt hwt
      exact Python.eval_operation hop hvt hwt hu heop hvp hwp
    · have hop : op.operand = .bool := by
        cases op <;> first | rfl | exact absurd rfl hop
      rw [hop] at hvt hwt
      exact Python.eval_connective hop hvt hwt hu hvp hwp
  | unary n op e ih =>
    obtain ⟨he, rfl⟩ := h.unary
    obtain ⟨hee, heop⟩ := exact_unary.1 hexact
    obtain ⟨v, hv, hvt, hvp⟩ := ih he hee
    obtain ⟨u, hu, hut⟩ := UnaryOp.apply_eq_ok hvt
    refine ⟨u, by rw [eval, hv]; exact hu, hut, ?_⟩
    rw [hv] at heop
    rw [pyTerm, Python.Term.eval, hvp]
    exact Python.Value.unary_of hvt hu heop
  | bool n b => exact ⟨.bool b, rfl, h.bool, rfl⟩
  | int n v => exact ⟨.int v, rfl, h.int, Python.eval_pyTerm_int ann env n v⟩
  | var n s =>
    obtain ⟨info, hx, rfl, hbind⟩ := h.var
    rw [ScopeTable.lookup_eq_read] at hx
    obtain ⟨v, hv, hvt, hlookup⟩ := hs _ (Frames.mem_entries_of_read hx)
    refine ⟨v, ?_, hvt, ?_⟩
    · simp only [eval, ann.resolve_eq_ok hbind, bind, Except.bind, hv]
    · rw [pyTerm, ann.targetName_eq hbind, Python.Term.eval, hlookup]
  | hole n => exact h.whole.elim

/-- A condition holds in Python if it does for the evaluator. -/
theorem pyTerm_holds {s : Python.State} (hs : s.env.Shows scope store) {e : Expr}
    (h : e.Valid ann scope .bool) (hexact : e.Exact ann store) :
    ∃ b, e.holds ann store = .ok b ∧ (e.pyTerm ann).holds s = .ok b := by
  obtain ⟨v, hv, hvt, hvp⟩ := pyTerm_eval hs h hexact
  obtain ⟨b, rfl⟩ := Value.ty_eq_bool.1 hvt
  exact ⟨b, by rw [holds, hv]; rfl, by rw [Python.Term.holds, hvp]; rfl⟩

end Expr

/-! ## Variables -/

namespace Python.Env.Shows

variable {env : Env} {scope : ScopeTable} {store : Store}

theorem empty : Env.Shows [] .empty .empty := by
  intro p hp
  cases hp

/-- Fewer declarations may be in scope. -/
theorem narrow (h : env.Shows scope store) {outer : ScopeTable}
    (ho : ∀ p ∈ Frames.entries outer.frames, p ∈ Frames.entries scope.frames) :
    env.Shows outer store := fun p hp => h p (ho p hp)

/-- A value that the store and the variables get for one declaration leaves the others alone. -/
theorem assign (h : env.Shows scope store) (x : String) (d : DeclId) (v : WhileLang.Value)
    {p : String × DeclInfo} (hp : p ∈ Frames.entries scope.frames) (hne : p.2.decl ≠ d) :
    ∃ w, (store.insert d.index v)[p.2.decl.index]? = some w ∧ w.ty = p.2.ty ∧
      List.lookup (Target.varName p.1 p.2.decl) ((Target.varName x d, Value.of v) :: env) =
        some (.of w) := by
  obtain ⟨w, hw, hwt, hlookup⟩ := h p hp
  have hindex : d.index ≠ p.2.decl.index := fun he => hne (congrArg DeclId.mk he.symm)
  have hname : Target.varName p.1 p.2.decl ≠ Target.varName x d := fun he =>
    hne (Target.varName_inj he)
  refine ⟨w, by simpa [Std.TreeMap.getElem?_insert, hindex] using hw, hwt, ?_⟩
  rw [List.lookup_cons, beq_eq_false_iff_ne.2 hname]
  exact hlookup

theorem declare (h : env.Shows scope store) {d : Declaration} {v : WhileLang.Value}
    (hv : v.ty = d.ty) (hd : d.decl.index ∉ scope.declNumbers) :
    Shows ((Target.varName d.symbol.name d.decl, Value.of v) :: env) (scope.extend d)
      (store.insert d.decl.index v) := by
  intro p hp
  obtain rfl | hp : p = (d.symbol.name, d.info) ∨ p ∈ Frames.entries scope.frames :=
    List.mem_cons.1 hp
  · exact ⟨v, by simp [Declaration.info], hv, by simp [Declaration.info]⟩
  · have hne : p.2.decl ≠ d.decl := fun he => hd (he ▸ ScopeTable.mem_declNumbers hp)
    exact h.assign d.symbol.name d.decl v hp hne

/-- A variable that is in scope gets another value of its type. -/
theorem write (h : env.Shows scope store) (hd : scope.declNumbers.Nodup) {x : String}
    {info : DeclInfo} (hx : scope.lookup x = some info) {v : WhileLang.Value}
    (hv : v.ty = info.ty) :
    Shows ((Target.varName x info.decl, Value.of v) :: env) scope
      (store.insert info.decl.index v) := by
  rw [ScopeTable.lookup_eq_read] at hx
  have hmem := Frames.mem_entries_of_read hx
  intro p hp
  by_cases hdecl : p.2.decl = info.decl
  · obtain rfl : p = (x, info) :=
      List.inj_on_of_nodup_map hd hp hmem (congrArg DeclId.index hdecl)
    exact ⟨v, by simp, hv, by simp⟩
  · exact h.assign x info.decl v hp hdecl

end Python.Env.Shows

/-! ## Blocks -/

namespace Block

/-- What is in scope stays in scope up to the end of a block. -/
theorem mem_entries_scopeAfter {scope inner : ScopeTable} (ho : inner.outer = scope.frames)
    {p : String × DeclInfo} (hp : p ∈ Frames.entries scope.frames) :
    p ∈ Frames.entries inner.frames := by
  have hinner : Frames.entries inner.frames = inner.inner ++ Frames.entries scope.frames := by
    rw [← ho]
    rfl
  rw [hinner]
  exact List.mem_append_right _ hp

/-- What comes after a block is run after it. -/
theorem run_pyCode_last (ann : Annotations) (bound : Nat) (last : Python.Code) (b : Block)
    (s : Python.State) :
    (b.pyCode ann last).run bound s = (b.pyCode ann .done).run bound s >>= last.run bound := by
  induction b generalizing s with
  | done => rfl
  | declare d rest ih => simp only [pyCode, Python.Code.run, bind_assoc, ih]
  | assign a rest ih => simp only [pyCode, Python.Code.run, bind_assoc, ih]
  | loop w body rest _ ih => simp only [pyCode, Python.Code.run, bind_assoc, ih]

/-- `pass` does nothing. -/
theorem run_pyBody (ann : Annotations) (bound : Nat) (b : Block) :
    (if b.isEmpty then Python.Code.pass .done else b.pyCode ann .done).run bound =
      (b.pyCode ann .done).run bound := by
  cases b with
  | done => rfl
  | declare | assign | loop => rfl

/-- **The run in Python of a valid block goes in step with that of the evaluator**, when all exact
results are within 64 bits. -/
theorem run_pyCode {ann : Annotations} {scope : ScopeTable} {b : Block} (h : b.Valid ann scope)
    (bound : Nat) {store : Store} {s : Python.State} (hs : s.env.Shows scope store)
    (hexact : b.Always ann (fun e s => e.Exact ann s) store) :
    Bounded.InStep (fun store' s' => s'.env.Shows (b.scopeAfter scope) store' ∧
      s'.output = s.output) (b.run ann bound store) ((b.pyCode ann .done).run bound s) := by
  induction b generalizing scope store s with
  | done => exact .pure ⟨hs, rfl⟩
  | declare d rest ih =>
    obtain ⟨hinit, hfresh, hdecl, hrest⟩ := h.declare
    obtain ⟨v, hv, hvt, hvp⟩ := Expr.pyTerm_eval hs hinit (hexact _ _ .init)
    rw [always_declare hv] at hexact
    rw [run_declare hv, pyCode, Python.Code.run, hvp, scopeAfter, hdecl]
    exact ih hrest (s := ⟨_, s.output⟩) (hs.declare hvt hfresh) hexact.2
  | assign a rest ih =>
    obtain ⟨info, hx, hvalue, hbind, hrest⟩ := h.assign
    obtain ⟨v, hv, hvt, hvp⟩ := Expr.pyTerm_eval hs hvalue (hexact _ _ .value)
    have hres := ann.resolve_eq_ok hbind a.symbol.name
    rw [always_assign hv hres] at hexact
    rw [run_assign hv hres, pyCode, Python.Code.run, hvp, ann.targetName_eq hbind]
    exact ih hrest (s := ⟨_, s.output⟩) (hs.write h.nodup hx hvt) hexact.2
  | loop w body rest ihb ihr =>
    obtain ⟨hcond, hbody, hrest⟩ := h.loop
    rw [run, pyCode, Python.Code.run, run_pyBody]
    -- from any round on the loop is exact
    let I : Store → Python.State → Prop := fun store s' => (s'.env.Shows scope store ∧
      s'.output = s.output) ∧ (loop w body rest).Always ann (fun e s => e.Exact ann s) store
    refine (Bounded.InStep.iterate (I := I) ?_ ?_ bound store s ⟨⟨hs, rfl⟩, hexact⟩).bind ?_
    · rintro store s ⟨⟨hs, -⟩, hexact⟩
      exact Expr.pyTerm_holds hs hcond (hexact _ _ .cond)
    · rintro store t ⟨⟨ht, hout⟩, hexact⟩ hc
      have hround := ihb hbody (s := t) ht fun e s' he => hexact e s' (.round hc he)
      apply hround.result.imp
      rintro store' t' ⟨hrun, ht', hout'⟩
      refine ⟨⟨?_, hout'.trans hout⟩, fun e s' he => hexact e s' (.again hc hrun he)⟩
      exact ht'.narrow fun p hp => mem_entries_scopeAfter (outer_scopeAfter ..) hp
    · rintro store' t ⟨hc, ⟨ht, hout⟩, hexact⟩
      rw [← hout]
      exact ihr hrest ht fun e s' he => hexact e s' (.loop hc he)

end Block

/-! ## Programs -/

/-- A value is printed as the evaluator shows it. -/
theorem eval_pyPrinted {env : Python.Env} {e : Python.Term} {v : Value}
    (h : e.eval env = .ok (.of v)) :
    ∃ w, (pyPrinted v.ty e).eval env = .ok w ∧ w.chars = v.text.toList := by
  cases v with
  | int n => exact ⟨_, h, rfl⟩
  | bool b =>
    refine ⟨.str (if b then ['t', 'r', 'u', 'e'] else ['f', 'a', 'l', 's', 'e']), ?_, ?_⟩
    · rw [Value.ty, pyPrinted, if_pos rfl, Python.Term.eval, h]
      cases b <;> rfl
    · cases b <;> rfl

/-- **The run in Python of a valid program goes in step with that of the evaluator**, when all exact
results are within 64 bits, and at the end it has printed the value and a newline. -/
theorem Program.run_pyCode {ann : Annotations} {p : Program} (h : p.Valid ann) (bound : Nat)
    (hexact : ∀ e s, p.Evaluates ann e s → e.Exact ann s) :
    Bounded.InStep (fun v s => s.output = (v.text ++ "\n").toList) (p.eval ann bound)
      ((p.pyCode ann).run bound ⟨[], []⟩) := by
  have hbody := Block.run_pyCode h.body bound (s := ⟨[], []⟩) Python.Env.Shows.empty
    fun e s he => hexact e s (.inl he)
  rw [eval, pyCode, Block.run_pyCode_last]
  apply hbody.result.bind
  rintro store s ⟨hrun, hs, hout⟩
  obtain ⟨v, hv, hvt, hvp⟩ := Expr.pyTerm_eval hs h.result (hexact _ _ (.inr ⟨rfl, bound, hrun⟩))
  obtain ⟨w, hw, hchars⟩ := eval_pyPrinted hvp
  rw [hvt, ← h.tyOf_result] at hw
  rw [hv, Python.Code.run, hw]
  refine .pure ?_
  show s.output ++ w.chars ++ ['\n'] = _
  rw [hout, hchars, String.toList_append]
  rfl

end WhileLang
