import WhileLang.Proofs.C.Terms

/-!
# `WhileLang/Proofs/C/Simulation.lean` — a program and its C code, statement by statement

A block is run by the evaluator, and what it was compiled to is run as C. Before and after every
statement the frames of C match the store (`View.inC`): each declaration that is in scope has its
variable, **under a name that no other declaration has**, with the number that C has for its value.
So hiding never matters in C; a declaration may even be in scope already while its first value is
computed, since that value cannot name it.

The run in C goes as the other does until it overflows, and it overflows if and only if one of the
expressions does that the evaluator evaluates with that store (`Block.run_cCode`).
-/

set_option autoImplicit false

namespace WhileLang

/-- The environment has a variable for each declaration, with its number. -/
def View.inC : View (C.Ty × Option Int) where
  name p := Target.varName p.1 p.2.decl
  entry info v := (info.ty.cTy, some (C.number v))

namespace View

/-- A declaration of a scope is the only one with the name of its variable. -/
theorem find?_inC {scope : ScopeTable} (hd : scope.declNumbers.Nodup) {p : String × DeclInfo}
    (hp : p ∈ Frames.entries scope.frames) :
    (Frames.entries scope.frames).find? (fun q => inC.name q = inC.name p) = some p := by
  cases hfind : (Frames.entries scope.frames).find? (fun q => inC.name q = inC.name p) with
  | none =>
    rw [List.find?_eq_none] at hfind
    exact absurd (decide_eq_true rfl) (hfind p hp)
  | some q =>
    have hq := List.mem_of_find?_eq_some hfind
    have hname : inC.name q = inC.name p := by simpa using List.find?_some hfind
    have hdecl : q.2.decl = p.2.decl := Target.varName_inj hname
    rw [List.inj_on_of_nodup_map hd hq hp (congrArg DeclId.index hdecl)]

variable {scope : ScopeTable} {store : Store} {env : C.Env}

theorem Matches.shows (h : inC.Matches scope store env) (hd : scope.declNumbers.Nodup) :
    env.Shows scope store := by
  intro x info hx
  rw [ScopeTable.lookup_eq_read] at hx
  exact h.read (p := (x, info)) (find?_inC hd (Frames.mem_entries_of_read hx))

end View

namespace C.Env

variable {scope : ScopeTable} {store : Store} {env : C.Env}

/-- The variable of a declaration that is not in scope hides none that is. -/
theorem Shows.bind (h : env.Shows scope store) {d : DeclId} (hd : d.index ∉ scope.declNumbers)
    (x : String) (entry : Ty × Option Int) :
    Shows (env.bind (Target.varName x d) entry) scope store := by
  intro y info hy
  have hmem := Frames.mem_entries_of_read hy
  have hne : Target.varName y info.decl ≠ Target.varName x d := by
    intro he
    apply hd
    rw [← Target.varName_inj he]
    exact ScopeTable.mem_declNumbers hmem
  rw [Frames.read_bind, if_neg hne]
  exact h y info hy

end C.Env

/-! ## Single steps -/

namespace C

variable {ann : Annotations} {scope : ScopeTable} {store : Store} {env : Env}

theorem declare_overflowsUnless (hm : View.inC.Matches scope store env)
    (hd : scope.declNumbers.Nodup) {d : Declaration} (hfresh : d.decl.index ∉ scope.declNumbers)
    (h : d.init.Valid ann scope d.ty) (hexact : d.init.Exact ann store) :
    ∃ v, d.init.eval ann store = .ok v ∧
      OverflowsUnless (d.init.FitsInt ann store)
        (View.inC.Matches (scope.extend d) (store.insert d.decl.index v))
        (Bounded.ofExcept
          (env.declare d.ty.cTy (Target.varName d.symbol.name d.decl) (d.init.cTerm ann))) := by
  have hnone : env.read (Target.varName d.symbol.name d.decl) = none := by
    apply hm.read_eq_none
    intro p hp he
    exact hfresh (Target.varName_inj he ▸ ScopeTable.mem_declNumbers hp)
  have hshows := (hm.shows hd).bind hfresh d.symbol.name (d.ty.cTy, none)
  obtain ⟨v, hv, hvt, hvc⟩ := Expr.cTerm_eval hshows h hexact
  refine ⟨v, hv, ?_⟩
  rw [Env.declare, Frames.lookup_top_of_read hnone, if_neg (by simp), ofExcept_bind]
  refine hvc.bind_ok fun w hw => ⟨_, ?_, hm.declare hvt hfresh⟩
  have hconvert := hw.convert
  rw [hvt] at hconvert
  rw [hconvert]
  rfl

theorem assign_overflowsUnless (hm : View.inC.Matches scope store env)
    (hd : scope.declNumbers.Nodup) {x : String} {info : DeclInfo}
    (hx : scope.lookup x = some info) {e : Expr} (h : e.Valid ann scope info.ty)
    (hexact : e.Exact ann store) :
    ∃ v, e.eval ann store = .ok v ∧
      OverflowsUnless (e.FitsInt ann store)
        (View.inC.Matches scope (store.insert info.decl.index v))
        (Bounded.ofExcept (env.assign (Target.varName x info.decl) (e.cTerm ann))) := by
  obtain ⟨v, hv, hvt, hvc⟩ := Expr.cTerm_eval (hm.shows hd) h hexact
  refine ⟨v, hv, ?_⟩
  -- the variable has the type of the declaration, and takes the value as it is
  obtain ⟨_, -, -, hread⟩ := hm.shows hd x info hx
  rw [ScopeTable.lookup_eq_read] at hx
  obtain ⟨env', hwrite, hm'⟩ := hm.write (p := (x, info))
    (View.find?_inC hd (Frames.mem_entries_of_read hx)) hd hvt
  have hwrite : Frames.write (Target.varName x info.decl) (info.ty.cTy, some (number v)) env =
    some env' := hwrite
  rw [Env.assign, ofExcept_bind]
  refine hvc.bind_ok fun w hw => ⟨env', ?_, hm'⟩
  have hconvert := hw.convert
  rw [hvt] at hconvert
  simp only [hread, hconvert, bind, Except.bind, hwrite]
  rfl

/-- A condition holds in C if it does for the evaluator. -/
theorem holds_overflowsUnless {s : State} (hm : View.inC.Matches scope store s.env)
    (hd : scope.declNumbers.Nodup) {e : Expr} (h : e.Valid ann scope .bool)
    (hexact : e.Exact ann store) :
    ∃ b, e.holds ann store = .ok b ∧
      OverflowsUnless (e.FitsInt ann store) (· = b)
        (Bounded.ofExcept ((e.cTerm ann).holds s)) := by
  obtain ⟨v, hv, hvt, hvc⟩ := Expr.cTerm_eval (hm.shows hd) h hexact
  obtain ⟨b, rfl⟩ := Value.ty_eq_bool.1 hvt
  refine ⟨b, by rw [Expr.holds, hv]; rfl, ?_⟩
  rw [Term.holds, ofExcept_bind]
  exact hvc.bind_ok fun w hw => ⟨_, rfl, by simp [hw.n_eq_zero_iff]⟩

end C

/-! ## Blocks -/

namespace Block

/-- What comes after a block is run after it. -/
theorem run_cCode_last (ann : Annotations) (bound : Nat) (last : C.Code) (b : Block) (s : C.State) :
    (b.cCode ann last).run bound s = (b.cCode ann .done).run bound s >>= last.run bound := by
  induction b generalizing s with
  | done => rfl
  | declare d rest ih => simp only [cCode, C.Code.run, bind_assoc, ih]
  | assign a rest ih => simp only [cCode, C.Code.run, bind_assoc, ih]
  | loop w body rest _ ih => simp only [cCode, C.Code.run, bind_assoc, ih]

/-- When the evaluator comes to the end of the block, with all exact results within 64 bits, so does
the run in C, or it overflows in an operation of 32 bits. -/
def RunsInC (ann : Annotations) (bound : Nat) (scope scope' : ScopeTable) (b : Block) : Prop :=
  ∀ (store store' : Store) (s : C.State), View.inC.Matches scope store s.env →
    b.run ann bound store = pure store' → b.Always ann (fun e s => e.Exact ann s) store →
    C.OverflowsUnless (b.Always ann (fun e s => e.FitsInt ann s) store)
      (fun s' => View.inC.Matches scope' store' s'.env ∧ s'.output = s.output)
      ((b.cCode ann .done).run bound s)

/-- What a block declares is gone after its frame. -/
theorem RunsInC.inFrame {ann : Annotations} {bound : Nat} {scope inner : ScopeTable} {b : Block}
    (h : b.RunsInC ann bound scope.push inner) (ho : inner.outer = scope.frames)
    {store store' : Store} {s : C.State} (hm : View.inC.Matches scope store s.env)
    (hrun : b.run ann bound store = pure store')
    (hexact : b.Always ann (fun e s => e.Exact ann s) store) :
    C.OverflowsUnless (b.Always ann (fun e s => e.FitsInt ann s) store)
      (fun s' => View.inC.Matches scope store' s'.env ∧ s'.output = s.output)
      (s.inFrame ((b.cCode ann .done).run bound)) := by
  refine (h store store' ⟨s.env.push, s.output⟩ hm.push hrun hexact).bind_ok ?_
  exact fun s' hs' => ⟨_, rfl, hs'.1.pop ho, hs'.2⟩

/-- The rounds of a loop are run one after the other, each in a frame of its own, and then the
rest. -/
theorem RunsInC.loop {ann : Annotations} {bound : Nat} {scope scope' inner : ScopeTable}
    {w : LoopHead} {body rest : Block} (hd : scope.declNumbers.Nodup)
    (hcond : w.cond.Valid ann scope .bool) (hbody : body.RunsInC ann bound scope.push inner)
    (ho : inner.outer = scope.frames) (hrest : rest.RunsInC ann bound scope scope') :
    (Block.loop w body rest).RunsInC ann bound scope scope' := by
  intro store store' s hm hrun hexact
  rw [run] at hrun
  rw [cCode, C.Code.run]
  -- the rounds are counted down, and the bound of the loops in the body stays
  suffices hrounds : ∀ (k : Nat) (store : Store) (t : C.State), View.inC.Matches scope store t.env →
      t.output = s.output →
      (iterate (fun s => w.cond.holds ann s) (body.run ann bound) k store >>= rest.run ann bound) =
        pure store' →
      (Block.loop w body rest).Always ann (fun e s => e.Exact ann s) store →
      C.OverflowsUnless ((Block.loop w body rest).Always ann (fun e s => e.FitsInt ann s) store)
        (fun s' => View.inC.Matches scope' store' s'.env ∧ s'.output = s.output)
        (iterate (w.cond.cTerm ann).holds (C.State.inFrame ((body.cCode ann .done).run bound)) k t
          >>= (rest.cCode ann .done).run bound) from
    hrounds bound store s hm rfl hrun hexact
  intro k
  induction k using Nat.strong_induction_on with
  | _ k ih =>
    intro store t hm hout hrun hexact
    obtain ⟨b, hb, hbc⟩ := C.holds_overflowsUnless hm hd hcond (hexact _ _ .cond)
    rw [Bounded.iterate_bind, hb, Bounded.ofExcept_ok, pure_bind] at hrun
    rw [Bounded.iterate_bind]
    cases b with
    | false =>
      rw [always_loop_of_not hb] at hexact ⊢
      apply hbc.bind
      rintro b rfl
      rw [← hout]
      exact hrest store store' t hm hrun hexact.2
    | true =>
      cases k with
      | zero => cases hrun
      | succ k =>
        -- the evaluator came to the end, so this round of it did, and so did the rounds after it
        obtain ⟨store₁, hb₁, hrun⟩ := Bounded.exists_of_bind_eq_pure hrun
        rw [always_loop_of_round hb hb₁] at hexact ⊢
        apply hbc.bind
        rintro b rfl
        apply (hbody.inFrame ho hm hb₁ hexact.2.1).bind
        intro t₁ ht₁
        exact ih k (Nat.lt_succ_self k) store₁ t₁ ht₁.1 (ht₁.2.trans hout) hrun hexact.2.2

/-- **The run in C of a valid block** is that of the evaluator until it overflows. -/
theorem runsInC {ann : Annotations} {scope : ScopeTable} {b : Block} (h : b.Valid ann scope)
    (bound : Nat) : b.RunsInC ann bound scope (b.scopeAfter scope) := by
  induction b generalizing scope with
  | done =>
    intro store store' s hm hrun hexact
    cases hrun
    exact .answer always_done ⟨hm, rfl⟩
  | declare d rest ih =>
    intro store store' s hm hrun hexact
    obtain ⟨hinit, hfresh, hdecl, hrest⟩ := h.declare
    obtain ⟨v, hv, hvc⟩ := C.declare_overflowsUnless hm h.nodup hfresh hinit (hexact _ _ .init)
    rw [always_declare hv] at hexact ⊢
    rw [run_declare hv] at hrun
    rw [cCode, C.Code.run, scopeAfter, hdecl]
    exact hvc.bind fun env hm' => ih hrest _ _ ⟨env, s.output⟩ hm' hrun hexact.2
  | assign a rest ih =>
    intro store store' s hm hrun hexact
    obtain ⟨info, hx, hvalue, hbind, hrest⟩ := h.assign
    obtain ⟨v, hv, hvc⟩ := C.assign_overflowsUnless hm h.nodup hx hvalue (hexact _ _ .value)
    have hres := ann.resolve_eq_ok hbind a.symbol.name
    rw [always_assign hv hres] at hexact ⊢
    rw [run_assign hv hres] at hrun
    rw [cCode, C.Code.run, ann.targetName_eq hbind]
    exact hvc.bind fun env hm' => ih hrest _ _ ⟨env, s.output⟩ hm' hrun hexact.2
  | loop w body rest ihb ihr =>
    obtain ⟨hcond, hbody, hrest⟩ := h.loop
    exact .loop h.nodup hcond (ihb hbody) (outer_scopeAfter ..) (ihr hrest)

end Block

/-! ## Programs -/

/-- A value is printed as the evaluator shows it, and then a newline. -/
theorem printed_overflowsUnless {env : C.Env} {e : C.Term} {fits : Prop} {narrow : Bool} {v : Value}
    (h : C.OverflowsUnless fits (·.StandsFor narrow v) (Bounded.ofExcept (e.eval env))) :
    C.OverflowsUnless fits (· = (v.text ++ "\n").toList)
      (Bounded.ofExcept ((cPrinted v.ty e).chars env)) := by
  rw [String.toList_append]
  cases v with
  | int v =>
    have hchars : (cPrinted .int e).chars env =
        e.eval env >>= fun w => w.convert .longLong >>= fun w =>
          C.formatted ['%', 'l', 'l', 'd', '\n'] [w] := by
      simp [cPrinted, C.Printed.chars, C.Term.eval]
    rw [Value.ty, hchars, C.ofExcept_bind]
    refine h.bind_ok fun w hw => ⟨_, ?_, rfl⟩
    have hconvert : w.convert .longLong = .ok ⟨.longLong, v.toInt⟩ := hw.convert
    rw [hconvert]
    rfl
  | bool b =>
    rw [Value.ty, cPrinted, if_pos rfl, C.Printed.chars, C.ofExcept_bind]
    refine h.bind_ok fun w hw => ⟨_, ?_, rfl⟩
    cases b with
    | false =>
      rw [if_pos (hw.n_eq_zero_iff.2 rfl)]
      rfl
    | true =>
      rw [if_neg (by simp [hw.n_eq_zero_iff])]
      rfl

/-- **The run in C of a valid program** that the evaluator has a value for, with all exact results
within 64 bits: it prints the value, or overflows in an operation of 32 bits. -/
theorem Program.run_cMain {ann : Annotations} {p : Program} (h : p.Valid ann) {bound : Nat}
    {v : Value} (hv : p.eval ann bound = pure v)
    (hexact : ∀ e s, p.Evaluates ann e s → e.Exact ann s) :
    C.OverflowsUnless (∀ e s, p.Evaluates ann e s → e.FitsInt ann s)
      (· = (v.text ++ "\n").toList) ((p.cMain ann).run bound) := by
  obtain ⟨store, hrun, hresult⟩ := Bounded.exists_of_bind_eq_pure hv
  rw [Program.forall_evaluates hrun] at hexact ⊢
  have hbody := Block.runsInC h.body bound .empty store ⟨[[]], []⟩ .empty hrun hexact.1
  rw [C.Main.run, cMain, Block.run_cCode_last, bind_assoc]
  apply hbody.bind
  intro s ⟨hm, hout⟩
  obtain ⟨w, hw, hwt, hwc⟩ := Expr.cTerm_eval (hm.shows h.body.nodup_scopeAfter) h.result hexact.2
  -- the value is that of the result in the last store, and no other
  obtain rfl : w = v := by
    rw [hw] at hresult
    cases hresult
    rfl
  have hprinted := printed_overflowsUnless hwc
  rw [hwt, ← h.tyOf_result] at hprinted
  rw [C.Code.run, bind_assoc]
  refine hprinted.bind_ok ?_
  rintro chars rfl
  exact ⟨_, rfl, congrArg (· ++ _) hout⟩

end WhileLang
