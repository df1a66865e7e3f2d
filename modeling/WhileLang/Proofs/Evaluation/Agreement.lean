import WhileLang.Proofs.Evaluation.Matching
import WhileLang.Proofs.Evaluation.Rounds
import WhileLang.Proofs.Evaluation.Scoped

/-!
# `WhileLang/Proofs/Evaluation/Agreement.lean` — the flat store and the stack of frames

A valid program is run on a flat store and on a stack of frames, side by side. What holds
before and after every statement is `Matches`: the scope of the checker and the environment have the
same shape and the same names, and **under the number of every visible declaration the store has the
value that the environment has for its name**, which is of the declared type.

From `Matches` follows what each run needs. No variable is unset and no operand of the wrong type,
so neither run fails; and they read the same values, so they go in step (`Block.run_inStep`).
-/

set_option autoImplicit false

namespace WhileLang

/-! ## Operators -/

theorem UnaryOp.apply_eq_ok {op : UnaryOp} {v : Value} (h : v.ty = op.operand) :
    ∃ w, op.apply v = .ok w ∧ w.ty = op.operand := by
  cases op with
  | plus | neg =>
    obtain ⟨n, rfl⟩ := Value.ty_eq_int.1 h
    exact ⟨_, rfl, rfl⟩
  | not =>
    obtain ⟨b, rfl⟩ := Value.ty_eq_bool.1 h
    exact ⟨_, rfl, rfl⟩

theorem BinaryOp.apply_eq_ok {op : BinaryOp} {v w : Value} (hv : v.ty = op.operand)
    (hw : w.ty = op.operand) : ∃ u, op.apply v w = .ok u ∧ u.ty = op.result := by
  cases op with
  | add | sub | mul | eq | ne | lt | le | gt | ge =>
    obtain ⟨m, rfl⟩ := Value.ty_eq_int.1 hv
    obtain ⟨n, rfl⟩ := Value.ty_eq_int.1 hw
    exact ⟨_, rfl, rfl⟩
  | and | or =>
    obtain ⟨a, rfl⟩ := Value.ty_eq_bool.1 hv
    obtain ⟨b, rfl⟩ := Value.ty_eq_bool.1 hw
    exact ⟨_, rfl, rfl⟩

/-! ## Stores and environments -/

/-- The environment has each variable under its own name, as its value. -/
def View.byName : View Value where
  name p := p.1
  entry _ v := v

/-- The store and the environment have the same values for what is declared in the scope. -/
abbrev Matches (scope : ScopeTable) (store : Store) (env : Env) : Prop :=
  View.byName.Matches scope store env

namespace Matches

variable {scope : ScopeTable} {store : Store} {env : Env}

theorem read (h : Matches scope store env) {x : String} {info : DeclInfo}
    (hx : scope.lookup x = some info) :
    ∃ v, env.read x = some v ∧ store[info.decl.index]? = some v ∧ v.ty = info.ty := by
  rw [ScopeTable.lookup_eq_read] at hx
  obtain ⟨v, hs, ht, hv⟩ := View.Matches.read h (p := (x, info)) (Frames.find?_of_read hx)
  exact ⟨v, hv, hs, ht⟩

theorem assign (h : Matches scope store env) {s : Symbol} {info : DeclInfo} {v : Value}
    (hx : scope.lookup s.name = some info) (hv : v.ty = info.ty) (hd : scope.declNumbers.Nodup) :
    ∃ env', env.assign s v = .ok env' ∧ Matches scope (store.insert info.decl.index v) env' := by
  rw [ScopeTable.lookup_eq_read] at hx
  obtain ⟨env', hw, hm⟩ :=
    View.Matches.write h (p := (s.name, info)) (Frames.find?_of_read hx) hd hv
  have hw : env.write s.name v = some env' := hw
  exact ⟨env', by rw [Env.assign, hw], hm⟩

end Matches

theorem Annotations.resolve_eq_ok {ann : Annotations} {node : NodeId} {d : DeclId}
    (h : ann.binding? node = some d) (x : String) : ann.resolve node x = .ok d := by
  rw [resolve, h]

/-! ## Expressions -/

namespace Expr

/-- A valid expression has a value, the same on both sides, and it is of its type. -/
theorem eval_inStep {ann : Annotations} {scope : ScopeTable} {store : Store} {env : Env}
    (hm : Matches scope store env) {e : Expr} {ty : Ty} (h : e.Valid ann scope ty) :
    ∃ v, e.eval ann store = .ok v ∧ e.evalScoped env = .ok v ∧ v.ty = ty := by
  induction e generalizing ty with
  | binary n op l r ihl ihr =>
    obtain ⟨hl, hr, rfl⟩ := h.binary
    obtain ⟨v, hv, hv', hvt⟩ := ihl hl
    obtain ⟨w, hw, hw', hwt⟩ := ihr hr
    obtain ⟨u, hu, hut⟩ := BinaryOp.apply_eq_ok hvt hwt
    exact ⟨u, by rw [eval, hv, hw]; exact hu, by rw [evalScoped, hv', hw']; exact hu, hut⟩
  | unary n op e ih =>
    obtain ⟨he, rfl⟩ := h.unary
    obtain ⟨v, hv, hv', hvt⟩ := ih he
    obtain ⟨u, hu, hut⟩ := UnaryOp.apply_eq_ok hvt
    exact ⟨u, by rw [eval, hv]; exact hu, by rw [evalScoped, hv']; exact hu, hut⟩
  | bool n b => exact ⟨.bool b, rfl, rfl, h.bool⟩
  | int n v => exact ⟨.int v, rfl, rfl, h.int⟩
  | var n s =>
    obtain ⟨info, hx, rfl, hbind⟩ := h.var
    obtain ⟨v, hv, hs, hvt⟩ := hm.read hx
    refine ⟨v, ?_, by rw [evalScoped, hv], hvt⟩
    simp only [eval, ann.resolve_eq_ok hbind, bind, Except.bind, hs]
  | hole n => exact h.whole.elim

/-- A condition holds on both sides or on neither. -/
theorem holds_inStep {ann : Annotations} {scope : ScopeTable} {store : Store} {env : Env}
    (hm : Matches scope store env) {e : Expr} (h : e.Valid ann scope .bool) :
    ∃ b, e.holds ann store = .ok b ∧ e.holdsScoped env = .ok b := by
  obtain ⟨v, hv, hv', hvt⟩ := eval_inStep hm h
  obtain ⟨b, rfl⟩ := Value.ty_eq_bool.1 hvt
  exact ⟨b, by rw [holds, hv]; rfl, by rw [holdsScoped, hv']; rfl⟩

end Expr

/-! ## Blocks -/

namespace Block

theorem run_declare {ann : Annotations} {bound : Nat} {d : Declaration} {rest : Block}
    {store : Store} {v : Value} (hv : d.init.eval ann store = .ok v) :
    (Block.declare d rest).run ann bound store =
      rest.run ann bound (store.insert d.decl.index v) := by
  rw [run, hv, Bounded.ofExcept_ok, pure_bind]

theorem run_assign {ann : Annotations} {bound : Nat} {a : Assignment} {rest : Block}
    {store : Store} {v : Value} {d : DeclId} (hv : a.value.eval ann store = .ok v)
    (hd : ann.resolve a.node.id a.symbol.name = .ok d) :
    (Block.assign a rest).run ann bound store = rest.run ann bound (store.insert d.index v) := by
  rw [run, hv, hd, Bounded.ofExcept_ok, Bounded.ofExcept_ok, pure_bind, pure_bind]

/-- **The two runs of a valid block go in step**, and what they leave behind matches in the scope
after it. -/
theorem run_inStep {ann : Annotations} {scope : ScopeTable} {b : Block} (h : b.Valid ann scope)
    (bound : Nat) {store : Store} {env : Env} (hm : Matches scope store env) :
    Bounded.InStep (Matches (b.scopeAfter scope)) (b.run ann bound store)
      (b.runScoped bound env) := by
  induction b generalizing scope store env with
  | done => exact .pure hm
  | declare d rest ih =>
    obtain ⟨hinit, hfresh, hdecl, hrest⟩ := h.declare
    obtain ⟨v, hv, hv', hvt⟩ := Expr.eval_inStep hm hinit
    rw [run, runScoped, hv, hv', scopeAfter, hdecl]
    exact ih hrest (hm.declare hvt hfresh)
  | assign a rest ih =>
    obtain ⟨info, hx, hvalue, hbind, hrest⟩ := h.assign
    obtain ⟨v, hv, hv', hvt⟩ := Expr.eval_inStep hm hvalue
    obtain ⟨env', he, hm'⟩ := hm.assign hx hvt h.nodup
    rw [run, runScoped, hv, hv', ann.resolve_eq_ok hbind]
    simp only [Bounded.ofExcept_ok, pure_bind, he]
    exact ih hrest hm'
  | loop w body rest ihb ihr =>
    obtain ⟨hcond, hbody, hrest⟩ := h.loop
    rw [run, runScoped]
    refine (Bounded.InStep.iterate (I := Matches scope) ?_ ?_ bound store env hm).bind ?_
    · exact fun store env hm => Expr.holds_inStep hm hcond
    · intro store env hm _
      have hround := ihb hbody hm.push
      -- the round's own frame is dropped on the one side, and forgotten on the other
      have hpop := hround.bind fun store' env' hm' =>
        Bounded.InStep.pure (hm'.pop (outer_scopeAfter ..) : Matches scope store' env'.pop)
      rwa [bind_pure] at hpop
    · exact fun store' env' hm' => ihr hrest hm'.2

end Block

/-! ## Programs -/

/-- **The two runs of a valid program go in step**, and return the same value, which is of the type
the checker gives the result. -/
theorem Program.eval_inStep {ann : Annotations} {p : Program} (h : p.Valid ann) (bound : Nat) :
    Bounded.InStep (fun v w => v = w ∧ v.ty = p.result.ty p.finalScope) (p.eval ann bound)
      (p.evalScoped bound) := by
  refine (Block.run_inStep h.body bound View.Matches.empty).bind ?_
  intro store env hm
  obtain ⟨v, hv, hv', hvt⟩ := Expr.eval_inStep hm h.result
  exact .ofExcept hv hv' ⟨rfl, hvt⟩

end WhileLang
