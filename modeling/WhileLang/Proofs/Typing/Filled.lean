import Mathlib.Data.List.Forall2
import Mathlib.Data.Option.Basic
import WhileLang.Proofs.Typing.Kept
import WhileLang.Proofs.Typing.Lexical
import WhileLang.Tree.Parser.Program

/-!
# `WhileLang/Proofs/Typing/Filled.lean` — a name that means nothing has no further consequences

A variable without a declaration has the unknown type, which fits everywhere, so that it is
complained about once and not again by what it is an operand of. But a type that fits everywhere
could also hide a complaint about something else. That it neither hides nor causes any is a
statement about two programs: **put literals of any type in the place of such variables, and what
is said of all other expressions stays word for word** (`Program.faults_of_fills`).

To speak of what is said of one expression, the findings are listed here check by check, each with
the expression it is about. The checks of the two programs are the same in number and order, since
neither the scopes nor the type of an operator's result depend on what was replaced.
-/

set_option autoImplicit false

namespace WhileLang

/-! ## Literals for variables -/

/-- The second expression is the first, but that variables for which the tables have no declaration
may have been replaced by literals. -/
inductive Expr.Fills (ann : Annotations) : Expr → Expr → Prop where
  | same (e : Expr) : Expr.Fills ann e e
  | binary {n : Node} {op : BinaryOp} {l l' r r' : Expr} :
    Expr.Fills ann l l' → Expr.Fills ann r r' →
    Expr.Fills ann (.binary n op l r) (.binary n op l' r')
  | unary {n : Node} {op : UnaryOp} {e e' : Expr} :
    Expr.Fills ann e e' → Expr.Fills ann (.unary n op e) (.unary n op e')
  | bool {n : Node} {s : Symbol} (b : Bool) :
    ann.binding? n.id = none → Expr.Fills ann (.var n s) (.bool n b)
  | int {n : Node} {s : Symbol} (v : Int64) :
    ann.binding? n.id = none → Expr.Fills ann (.var n s) (.int n v)

inductive Block.Fills (ann : Annotations) : Block → Block → Prop where
  | done : Block.Fills ann .done .done
  | declare {d : Declaration} {init : Expr} {rest rest' : Block} :
    Expr.Fills ann d.init init → Block.Fills ann rest rest' →
    Block.Fills ann (.declare d rest) (.declare { d with init := init } rest')
  | assign {a : Assignment} {value : Expr} {rest rest' : Block} :
    Expr.Fills ann a.value value → Block.Fills ann rest rest' →
    Block.Fills ann (.assign a rest) (.assign { a with value := value } rest')
  | loop {w : LoopHead} {cond : Expr} {body body' rest rest' : Block} :
    Expr.Fills ann w.cond cond → Block.Fills ann body body' → Block.Fills ann rest rest' →
    Block.Fills ann (.loop w body rest) (.loop { w with cond := cond } body' rest')

structure Program.Fills (ann : Annotations) (p p' : Program) : Prop where
  span : p'.span = p.span
  bodySpan : p'.bodySpan = p.bodySpan
  body : p.body.Fills ann p'.body
  result : p.result.Fills ann p'.result

/-- Whether the second expression is a literal in the place of a variable. -/
def Expr.isReplaced : Expr → Expr → Bool
  | .var _ _, .bool _ _ => true
  | .var _ _, .int _ _ => true
  | _, _ => false

theorem Expr.isReplaced_self (e : Expr) : e.isReplaced e = false := by
  cases e <;> rfl

/-- An expression that was not replaced has the place and the type it had, and one that was had no
type. -/
theorem Expr.Fills.cases_ty {ann : Annotations} {scope : ScopeTable} {e e' : Expr}
    (h : e.Fills ann e') (hk : e.Kept ann scope) :
    (e.isReplaced e' = false ∧ e'.ty scope = e.ty scope ∧ e'.span = e.span) ∨
      (e.isReplaced e' = true ∧ e.ty scope = .unknown) := by
  -- what has no entry in the tables means nothing in the scope
  have hnone {n : Node} {s : Symbol} (hn : ann.binding? n.id = none)
      (hk : (Expr.var n s).Kept ann scope) : (Expr.var n s).ty scope = .unknown := by
    rw [ty]
    cases hs : scope.find? s with
    | none => rfl
    | some info =>
      have hsome := hk (Option.isSome_iff_exists.2 ⟨info, hs⟩)
      rw [hn] at hsome
      cases hsome
  cases h with
  | same => exact .inl ⟨e.isReplaced_self, rfl, rfl⟩
  | binary | unary => exact .inl ⟨rfl, rfl, rfl⟩
  | bool b hn => exact .inr ⟨rfl, hnone hn hk⟩
  | int v hn => exact .inr ⟨rfl, hnone hn hk⟩

/-! ## The findings, check by check -/

/-- One thing that is checked, and what was found. -/
structure Check where
  /-- The expression that the findings are about, if they are not about the name that a statement
  declares or assigns to. -/
  about : Option Expr
  found : List Diagnostic

/-- An expression stands where a type is demanded, which is the fault unless it fits. -/
def Expr.demand (scope : ScopeTable) (e : Expr) (fault : Ty → TypeFault) : Check :=
  ⟨some e, (fault (e.ty scope)).check e.span⟩

def Expr.checks (scope : ScopeTable) : Expr → List Check
  | .binary _ op l r =>
    l.checks scope ++ r.checks scope ++ [l.demand scope (.left op), r.demand scope (.right op)]
  | .unary _ op e => e.checks scope ++ [e.demand scope (.operand op)]
  | .bool n b => [⟨some (.bool n b), []⟩]
  | .int n v => [⟨some (.int n v), []⟩]
  | .var n s => [⟨some (.var n s), scope.useFaults s⟩]
  | .hole n => [⟨some (.hole n), []⟩]

def Declaration.checks (scope : ScopeTable) (d : Declaration) : List Check :=
  d.init.checks scope ++
    [d.init.demand scope (.initializer d.symbol d.ty), ⟨none, scope.declareFaults d⟩]

def Assignment.checks (scope : ScopeTable) (a : Assignment) : List Check :=
  a.value.checks scope ++ ⟨none, scope.useFaults a.symbol⟩ ::
    match scope.find? a.symbol with
    | some target => [a.value.demand scope (.assigned a.symbol target)]
    | none => []

def Block.checks (scope : ScopeTable) : Block → List Check
  | .done => []
  | .declare d rest => d.checks scope ++ rest.checks (scope.declare d)
  | .assign a rest => a.checks scope ++ rest.checks scope
  | .loop w body rest =>
    w.cond.checks scope ++ w.cond.demand scope .condition ::
      (body.checks scope.push ++ rest.checks scope)

def Program.checks (p : Program) : List Check :=
  p.body.checks .empty ++ p.result.checks p.finalScope

/-- The findings of all checks. -/
def findings (cs : List Check) : List Diagnostic := cs.flatMap (·.found)

@[simp] theorem findings_append (cs cs' : List Check) :
    findings (cs ++ cs') = findings cs ++ findings cs' := List.flatMap_append

@[simp] theorem findings_cons (c : Check) (cs : List Check) :
    findings (c :: cs) = c.found ++ findings cs := List.flatMap_cons

@[simp] theorem findings_nil : findings [] = [] := rfl

theorem Expr.findings_checks (scope : ScopeTable) (e : Expr) :
    findings (e.checks scope) = e.faults scope := by
  induction e with
  | binary n op l r ihl ihr => simp [checks, faults, demand, ihl, ihr]
  | unary n op e ih => simp [checks, faults, demand, ih]
  | bool | int | var | hole => simp [checks, faults]

theorem Block.findings_checks (scope : ScopeTable) (b : Block) :
    findings (b.checks scope) = b.faults scope := by
  induction b generalizing scope with
  | done => rfl
  | declare d rest ih =>
    simp [checks, faults, Declaration.checks, Declaration.faults, Expr.findings_checks,
      Expr.demand, ih]
  | assign a rest ih =>
    rw [checks, faults, Assignment.checks, Assignment.faults, findings_append, ih]
    cases scope.find? a.symbol <;> simp [Expr.findings_checks, Expr.demand]
  | loop w body rest ihb ihr =>
    simp [checks, faults, Expr.findings_checks, Expr.demand, ihb, ihr]

/-- Nothing else is found. -/
theorem Program.findings_checks (p : Program) : findings p.checks = p.faults := by
  rw [checks, findings_append, Block.findings_checks, Expr.findings_checks, faults]

/-- What is found stands at what it is about: a mismatch at the expression that has the type, and an
undeclared name at the variable, unless it is the target of an assignment. -/
structure Check.Placed (c : Check) : Prop where
  mismatch : ∀ d ∈ c.found, d.kind = .typeMismatch → ∃ e, c.about = some e ∧ d.span = e.span
  undeclared : ∀ d ∈ c.found, d.kind = .undeclared →
    ∀ e, c.about = some e → ∃ n s, e = .var n s ∧ d.span = s.span

theorem Expr.placed_demand (scope : ScopeTable) (e : Expr) (fault : Ty → TypeFault) :
    (e.demand scope fault).Placed := by
  refine ⟨fun d hd _ => ⟨e, rfl, TypeFault.span_of_mem_check hd⟩, fun d hd hk => ?_⟩
  rw [TypeFault.kind_of_mem_check hd] at hk
  cases hk

theorem ScopeTable.placed_useFaults (scope : ScopeTable) {s : Symbol} {about : Option Expr}
    (h : ∀ e, about = some e → ∃ n, e = .var n s) :
    (Check.mk about (scope.useFaults s)).Placed := by
  refine ⟨fun d hd hk => ?_, fun d hd _ e he => ?_⟩
  · rw [kind_of_mem_useFaults hd] at hk
    cases hk
  · obtain ⟨n, rfl⟩ := h e he
    exact ⟨n, s, rfl, congrArg Diagnostic.span (eq_of_mem_useFaults hd)⟩

theorem ScopeTable.placed_declareFaults (scope : ScopeTable) (d : Declaration) :
    (Check.mk none (scope.declareFaults d)).Placed := by
  refine ⟨fun found hd hk => ?_, by simp⟩
  rw [kind_of_mem_declareFaults hd] at hk
  cases hk

theorem Expr.placed_checks (scope : ScopeTable) (e : Expr) : ∀ c ∈ e.checks scope, c.Placed := by
  induction e with
  | binary n op l r ihl ihr =>
    rw [checks, List.forall_mem_append, List.forall_mem_append]
    exact ⟨⟨ihl, ihr⟩, by simp [placed_demand]⟩
  | unary n op e ih =>
    rw [checks, List.forall_mem_append]
    exact ⟨ih, by simp [placed_demand]⟩
  | var n s =>
    rw [checks, List.forall_mem_singleton]
    exact scope.placed_useFaults fun e he => ⟨n, (Option.some.inj he).symm⟩
  | bool | int | hole =>
    rw [checks, List.forall_mem_singleton]
    exact ⟨by simp, by simp⟩

theorem Block.placed_checks (scope : ScopeTable) (b : Block) :
    ∀ c ∈ b.checks scope, c.Placed := by
  induction b generalizing scope with
  | done => simp [checks]
  | declare d rest ih =>
    rw [checks, Declaration.checks, List.forall_mem_append, List.forall_mem_append]
    refine ⟨⟨Expr.placed_checks scope d.init, ?_⟩, ih _⟩
    simp [Expr.placed_demand, ScopeTable.placed_declareFaults]
  | assign a rest ih =>
    rw [checks, Assignment.checks, List.forall_mem_append, List.forall_mem_append]
    refine ⟨⟨Expr.placed_checks scope a.value, ?_⟩, ih _⟩
    refine List.forall_mem_cons.2 ⟨scope.placed_useFaults (by simp), ?_⟩
    cases scope.find? a.symbol <;> simp [Expr.placed_demand]
  | loop w body rest ihb ihr =>
    rw [checks, List.forall_mem_append, List.forall_mem_cons, List.forall_mem_append]
    exact ⟨Expr.placed_checks scope w.cond, Expr.placed_demand .., ihb _, ihr _⟩

theorem Program.placed_checks (p : Program) : ∀ c ∈ p.checks, c.Placed := by
  rw [checks, List.forall_mem_append]
  exact ⟨Block.placed_checks _ _, Expr.placed_checks _ _⟩

/-! ## The checks of a program and of one that is filled in -/

/-- The check is about a literal in the place of a variable. -/
def Check.isReplaced (c c' : Check) : Bool :=
  match c.about, c'.about with
  | some e, some e' => e.isReplaced e'
  | _, _ => false

/-- The same check in two programs. Unless it is about what was replaced, it finds the same. If it
is, nothing is found of the type of the variable, and nothing of the name of the literal. -/
structure Check.Fills (ann : Annotations) (c c' : Check) : Prop where
  about : Option.Rel (Expr.Fills ann) c.about c'.about
  same : c.isReplaced c' = false → c'.found = c.found
  replaced : c.isReplaced c' = true →
    (∀ d ∈ c.found, d.kind ≠ .typeMismatch) ∧ ∀ d ∈ c'.found, d.kind ≠ .undeclared

section

variable {ann : Annotations} {scope : ScopeTable}

theorem Check.Fills.refl (c : Check) : c.Fills ann c := by
  obtain ⟨about, found⟩ := c
  cases about with
  | none => exact ⟨.none, fun _ => rfl, nofun⟩
  | some e =>
    have hself : Check.isReplaced ⟨some e, found⟩ ⟨some e, found⟩ = false := e.isReplaced_self
    exact ⟨.some (.same e), fun _ => rfl, fun h => by rw [hself] at h; cases h⟩

theorem forall₂_fills_refl (cs : List Check) : List.Forall₂ (Check.Fills ann) cs cs :=
  List.forall₂_same.2 fun c _ => .refl c

/-- The unknown type fits where any is demanded. -/
theorem Expr.Fills.demand {e e' : Expr} (h : e.Fills ann e') (hk : e.Kept ann scope)
    (fault : Ty → TypeFault) (hf : ∀ t, (fault t).actual = t) :
    (e.demand scope fault).Fills ann (e'.demand scope fault) where
  about := .some h
  same hr := by
    rcases h.cases_ty hk with ⟨-, hty, hspan⟩ | ⟨hr', -⟩
    · rw [Expr.demand, Expr.demand, hty, hspan]
    · exact absurd (hr'.symm.trans hr) (by simp)
  replaced hr := by
    rcases h.cases_ty hk with ⟨hr', -⟩ | ⟨-, hty⟩
    · exact absurd (hr.symm.trans hr') (by simp)
    · have hnone : (e.demand scope fault).found = [] := by
        rw [Expr.demand, hty]
        exact if_pos (by simp [hf, Ty.fits, Ty.isUnknown])
      refine ⟨by simp [hnone], fun d hd => ?_⟩
      rw [TypeFault.kind_of_mem_check hd]
      simp

/-- A name that was complained about is not there any more. -/
theorem Check.fills_literal {n : Node} {s : Symbol} {e : Expr} (h : (Expr.var n s).Fills ann e)
    (hr : (Expr.var n s).isReplaced e = true) :
    Check.Fills ann ⟨some (.var n s), scope.useFaults s⟩ ⟨some e, []⟩ where
  about := .some h
  same hr' := absurd (hr.symm.trans hr') (by simp)
  replaced _ := by
    refine ⟨fun d hd => ?_, nofun⟩
    rw [ScopeTable.kind_of_mem_useFaults hd]
    simp

theorem Expr.Fills.checks {e e' : Expr} (h : e.Fills ann e') (hk : e.Kept ann scope) :
    List.Forall₂ (Check.Fills ann) (e.checks scope) (e'.checks scope) := by
  induction h with
  | same => exact forall₂_fills_refl _
  | @binary n op l l' r r' hl hr ihl ihr =>
    have hleft := hl.demand hk.1 (.left op) fun _ => rfl
    have hright := hr.demand hk.2 (.right op) fun _ => rfl
    have hdemands := List.Forall₂.cons hleft (.cons hright .nil)
    exact List.rel_append (List.rel_append (ihl hk.1) (ihr hk.2)) hdemands
  | @unary n op e e' he ih =>
    have hdemand := he.demand hk (.operand op) fun _ => rfl
    exact List.rel_append (ih hk) (.cons hdemand .nil)
  | bool b hn => exact .cons (Check.fills_literal (.bool b hn) rfl) .nil
  | int v hn => exact .cons (Check.fills_literal (.int v hn) rfl) .nil

/-- What a declaration declares does not depend on its first value, so the scopes stay. -/
theorem Block.Fills.checks {b b' : Block} (h : b.Fills ann b') (hk : b.Kept ann scope) :
    List.Forall₂ (Check.Fills ann) (b.checks scope) (b'.checks scope) ∧
      b'.scopeAfter scope = b.scopeAfter scope := by
  induction h generalizing scope with
  | done => exact ⟨.nil, rfl⟩
  | @declare d init rest rest' hinit _ ih =>
    obtain ⟨hrest, hafter⟩ := ih hk.2
    have hdemands := List.Forall₂.cons
      (hinit.demand hk.1 (.initializer d.symbol d.ty) fun _ => rfl)
      (.cons (.refl ⟨none, scope.declareFaults d⟩) .nil)
    exact ⟨List.rel_append (List.rel_append (hinit.checks hk.1) hdemands) hrest, hafter⟩
  | @assign a value rest rest' hvalue _ ih =>
    obtain ⟨hrest, hafter⟩ := ih hk.2.2
    refine ⟨List.rel_append (List.rel_append (hvalue.checks hk.1) (.cons (.refl _) ?_)) hrest,
      hafter⟩
    cases scope.find? a.symbol with
    | none => exact .nil
    | some target =>
      exact .cons (hvalue.demand hk.1 (.assigned a.symbol target) fun _ => rfl) .nil
  | loop hcond _ _ ihb ihr =>
    obtain ⟨hbody, -⟩ := ihb hk.2.1
    obtain ⟨hrest, hafter⟩ := ihr hk.2.2
    have hdemand := hcond.demand hk.1 .condition fun _ => rfl
    exact ⟨List.rel_append (hcond.checks hk.1) (.cons hdemand (List.rel_append hbody hrest)),
      hafter⟩

end

/-- The checks of a program are the same in number and order when variables are replaced. -/
theorem Program.Fills.checks {p p' : Program} (h : p.Fills p.annotations p') :
    List.Forall₂ (Check.Fills p.annotations) p.checks p'.checks := by
  obtain ⟨hkb, hkr⟩ := p.kept_annotations
  obtain ⟨hbody, hafter⟩ := h.body.checks hkb
  have hscope : p'.finalScope = p.finalScope := hafter
  rw [Program.checks, Program.checks, hscope]
  exact List.rel_append hbody (h.result.checks hkr)

/-! ## What is said of the others -/

/-- The checks that are not about what was replaced, in both programs. -/
def unreplaced (cs cs' : List Check) : List (Check × Check) :=
  (cs.zip cs').filter fun q => !q.1.isReplaced q.2

theorem unreplaced_cons (c c' : Check) (cs cs' : List Check) :
    unreplaced (c :: cs) (c' :: cs') =
      if c.isReplaced c' then unreplaced cs cs' else (c, c') :: unreplaced cs cs' := by
  rw [unreplaced, List.zip_cons_cons, List.filter_cons]
  cases c.isReplaced c' <;> rfl

/-- Only the checks that are not about what was replaced find that types do not fit in the first
program, and that names are not declared in the second. -/
theorem filter_findings_of_fills {ann : Annotations} {cs cs' : List Check}
    (h : List.Forall₂ (Check.Fills ann) cs cs') :
    (findings cs).filter (·.kind = .typeMismatch) =
        (findings ((unreplaced cs cs').map (·.2))).filter (·.kind = .typeMismatch) ∧
      (findings cs').filter (·.kind = .undeclared) =
        (findings ((unreplaced cs cs').map (·.1))).filter (·.kind = .undeclared) := by
  induction h with
  | nil => exact ⟨rfl, rfl⟩
  | @cons c c' cs cs' hc _ ih =>
    obtain ⟨ihm, ihu⟩ := ih
    rw [findings_cons, findings_cons, List.filter_append, List.filter_append, ihm, ihu,
      unreplaced_cons]
    cases hr : c.isReplaced c' with
    | false => simp [hc.same hr]
    | true =>
      obtain ⟨hm, hu⟩ := hc.replaced hr
      have hnom : c.found.filter (·.kind = .typeMismatch) = [] := by
        simpa [List.filter_eq_nil_iff] using hm
      have hnou : c'.found.filter (·.kind = .undeclared) = [] := by
        simpa [List.filter_eq_nil_iff] using hu
      rw [hnom, hnou]
      exact ⟨rfl, rfl⟩

/-- **A name that means nothing causes no complaint about types and hides none.** Whatever literals
are put in the place of variables for which the tables have no declaration, the checks are the same
in number and order, about the same expressions, and find all that is found. The mismatches of the
program are those of the new one without those at the literals, word for word and in the same order;
and the new one has the complaints about undeclared names of the old one, without those about the
variables replaced. -/
theorem Program.faults_of_fills {p p' : Program} (h : p.Fills p.annotations p') :
    (findings p.checks = p.faults ∧ ∀ c ∈ p.checks, c.Placed) ∧
    (findings p'.checks = p'.faults ∧ ∀ c ∈ p'.checks, c.Placed) ∧
    List.Forall₂ (fun c c' => Option.Rel (Expr.Fills p.annotations) c.about c'.about)
      p.checks p'.checks ∧
    p.faults.filter (·.kind = .typeMismatch) =
      (findings ((unreplaced p.checks p'.checks).map (·.2))).filter (·.kind = .typeMismatch) ∧
    p'.faults.filter (·.kind = .undeclared) =
      (findings ((unreplaced p.checks p'.checks).map (·.1))).filter (·.kind = .undeclared) := by
  have hchecks := h.checks
  refine ⟨⟨p.findings_checks, p.placed_checks⟩, ⟨p'.findings_checks, p'.placed_checks⟩,
    hchecks.imp fun _ _ hc => hc.about, ?_⟩
  rw [← p.findings_checks, ← p'.findings_checks]
  exact filter_findings_of_fills hchecks

/-- `name` stands where an integer is wanted, and both programs have one complaint more than the
other: `name` is undeclared, and `true` is no integer. What is said of `b` and of the operand on
the right stays. -/
theorem Program.faults_of_fills_operand :
    let parsed := Program.ofSource ⟨0⟩ (Source.ofString "return name * b - true;")
    let filled := Program.ofSource ⟨0⟩ (Source.ofString "return true * b - true;")
    let p := parsed.1
    let p' := filled.1
    let others := unreplaced p.checks p'.checks
    parsed.2.toList = [] ∧ p.Fills p.annotations p' ∧
    p.faults.filter (·.kind = .typeMismatch) =
      (findings (others.map (·.2))).filter (·.kind = .typeMismatch) ∧
    p'.faults.filter (·.kind = .undeclared) =
      (findings (others.map (·.1))).filter (·.kind = .undeclared) ∧
    (p.faults.countP (·.kind = .typeMismatch) = 1 ∧
      p'.faults.countP (·.kind = .typeMismatch) = 2) ∧
    (p.faults.countP (·.kind = .undeclared) = 2 ∧
      p'.faults.countP (·.kind = .undeclared) = 1) := by
  intro parsed filled p p' others
  have hresult : p.result.Fills p.annotations p'.result := by
    have hp : p.result = .binary ⟨⟨4⟩, ⟨⟨0⟩, ⟨1, 8⟩, ⟨1, 22⟩⟩⟩ .sub
        (.binary ⟨⟨2⟩, ⟨⟨0⟩, ⟨1, 8⟩, ⟨1, 15⟩⟩⟩ .mul
          (.var ⟨⟨0⟩, ⟨⟨0⟩, ⟨1, 8⟩, ⟨1, 11⟩⟩⟩ ⟨"name", ⟨⟨0⟩, ⟨1, 8⟩, ⟨1, 11⟩⟩⟩)
          (.var ⟨⟨1⟩, ⟨⟨0⟩, ⟨1, 15⟩, ⟨1, 15⟩⟩⟩ ⟨"b", ⟨⟨0⟩, ⟨1, 15⟩, ⟨1, 15⟩⟩⟩))
        (.bool ⟨⟨3⟩, ⟨⟨0⟩, ⟨1, 19⟩, ⟨1, 22⟩⟩⟩ true) := by decide +kernel
    have hp' : p'.result = .binary ⟨⟨4⟩, ⟨⟨0⟩, ⟨1, 8⟩, ⟨1, 22⟩⟩⟩ .sub
        (.binary ⟨⟨2⟩, ⟨⟨0⟩, ⟨1, 8⟩, ⟨1, 15⟩⟩⟩ .mul
          (.bool ⟨⟨0⟩, ⟨⟨0⟩, ⟨1, 8⟩, ⟨1, 11⟩⟩⟩ true)
          (.var ⟨⟨1⟩, ⟨⟨0⟩, ⟨1, 15⟩, ⟨1, 15⟩⟩⟩ ⟨"b", ⟨⟨0⟩, ⟨1, 15⟩, ⟨1, 15⟩⟩⟩))
        (.bool ⟨⟨3⟩, ⟨⟨0⟩, ⟨1, 19⟩, ⟨1, 22⟩⟩⟩ true) := by decide +kernel
    have hname : p.annotations.binding? ⟨0⟩ = none := by decide +kernel
    rw [hp, hp']
    exact .binary (.binary (.bool true hname) (.same _)) (.same _)
  have hbody : p.body = .done ∧ p'.body = .done := by decide +kernel
  have hfills : p.Fills p.annotations p' :=
    ⟨by decide +kernel, by decide +kernel, hbody.1 ▸ hbody.2 ▸ .done, hresult⟩
  obtain ⟨-, -, -, hmismatches, hundeclared⟩ := Program.faults_of_fills hfills
  exact ⟨by decide +kernel, hfills, hmismatches, hundeclared, by decide +kernel, by decide +kernel⟩

end WhileLang
