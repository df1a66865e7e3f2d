import WhileLang.Proofs.Parser.Whole
import WhileLang.Proofs.Scope.Frames
import WhileLang.Typing.Check

/-!
# `WhileLang/Proofs/Typing/WellTyped.lean` — the typing rules, apart from the checker

The checker never stops at an error, so it is not itself a set of rules: it goes on with a type that
fits everywhere and with a scope that left a declaration out. The rules proper are stated here as
relations, with **no unknown type and no refused declaration in them**, and of a scope they know no
more than the types of its names. A context grows along a block by what is declared in it, and
`Block.WellTyped Γ b Γ'` says that `b` is well typed in `Γ` and leaves `Γ'` behind it.

On a tree in which nothing is missing the checker finds nothing exactly when the rules hold
(`Program.faults_eq_nil_iff`), and the type it gives an expression is then the one the rules give.
-/

set_option autoImplicit false

namespace WhileLang

/-- The types of the visible variables, by name. -/
abbrev Context := Frames Ty

/-- What a scope says of types. -/
def ScopeTable.types (t : ScopeTable) : Context := Frames.mapVal (·.ty) t.frames

/-! ## The rules -/

inductive Expr.HasTy (Γ : Context) : Expr → Ty → Prop where
  | binary {n : Node} {op : BinaryOp} {l r : Expr} :
    l.HasTy Γ op.operand → r.HasTy Γ op.operand → Expr.HasTy Γ (.binary n op l r) op.result
  | unary {n : Node} {op : UnaryOp} {e : Expr} :
    e.HasTy Γ op.operand → Expr.HasTy Γ (.unary n op e) op.operand
  | bool {n : Node} {b : Bool} : Expr.HasTy Γ (.bool n b) .bool
  | int {n : Node} {v : Int64} : Expr.HasTy Γ (.int n v) .int
  | var {n : Node} {s : Symbol} {ty : Ty} :
    Γ.read s.name = some ty → Expr.HasTy Γ (.var n s) ty

inductive Block.WellTyped : Context → Block → Context → Prop where
  | done {Γ : Context} : Block.WellTyped Γ .done Γ
  | declare {Γ Γ' : Context} {d : Declaration} {rest : Block} :
    d.init.HasTy Γ d.ty → Γ.top.lookup d.symbol.name = none →
    rest.WellTyped (Γ.bind d.symbol.name d.ty) Γ' → Block.WellTyped Γ (.declare d rest) Γ'
  | assign {Γ Γ' : Context} {a : Assignment} {rest : Block} {ty : Ty} :
    Γ.read a.symbol.name = some ty → a.value.HasTy Γ ty →
    rest.WellTyped Γ Γ' → Block.WellTyped Γ (.assign a rest) Γ'
  | loop {Γ inner Γ' : Context} {w : LoopHead} {body rest : Block} :
    w.cond.HasTy Γ .bool → body.WellTyped Γ.push inner →
    rest.WellTyped Γ Γ' → Block.WellTyped Γ (.loop w body rest) Γ'

/-- The statements are well typed one after the other, and the result has type `ty` where they
end. -/
def Program.WellTyped (p : Program) (ty : Ty) : Prop :=
  ∃ Γ, p.body.WellTyped [[]] Γ ∧ p.result.HasTy Γ ty

/-! ## Scopes -/

namespace ScopeTable

/-- The scope after a declaration of a new name. -/
def extend (t : ScopeTable) (d : Declaration) : ScopeTable :=
  { t with inner := (d.symbol.name, d.info) :: t.inner }

/-- A declaration is bound, or refused without effect. -/
theorem declare_cases (t : ScopeTable) (d : Declaration) :
    t.declare d = t.extend d ∨ t.declare d = t := by
  unfold declare bind
  by_cases hs : d.symbol.isError
  · simp [hs]
  · cases hd : t.inner.lookup d.symbol.name with
    | some prior => simp [hs]
    | none => simp [hs, extend]

theorem types_push (t : ScopeTable) : t.push.types = t.types.push := rfl

theorem types_extend (t : ScopeTable) (d : Declaration) :
    (t.extend d).types = t.types.bind d.symbol.name d.ty := rfl

theorem read_types (t : ScopeTable) (x : String) : t.types.read x = (t.lookup x).map (·.ty) :=
  Frames.read_mapVal ..

theorem lookup_top_types (t : ScopeTable) (x : String) :
    t.types.top.lookup x = (t.inner.lookup x).map (·.ty) :=
  Frames.lookup_map ..

theorem declare_eq_extend {t : ScopeTable} {d : Declaration} (hs : IsName d.symbol.name)
    (hd : t.inner.lookup d.symbol.name = none) : t.declare d = t.extend d := by
  simp [declare, bind, hs.isError_eq_false, hd, extend]

theorem find?_eq_lookup {t : ScopeTable} {s : Symbol} (hs : IsName s.name) :
    t.find? s = t.lookup s.name := by
  unfold find? find
  cases h : t.lookup s.name <;> simp [hs.isError_eq_false]

/-- A name is looked for without complaint exactly when it is declared. -/
theorem useFaults_eq_nil_iff {t : ScopeTable} {s : Symbol} (hs : IsName s.name) :
    t.useFaults s = [] ↔ ∃ info, t.lookup s.name = some info := by
  unfold useFaults find
  cases hl : t.lookup s.name <;> simp [hs.isError_eq_false]

/-- A name is declared without complaint exactly when it is new in its frame. -/
theorem declareFaults_eq_nil_iff {t : ScopeTable} {d : Declaration} (hs : IsName d.symbol.name) :
    t.declareFaults d = [] ↔ t.inner.lookup d.symbol.name = none := by
  unfold declareFaults bind
  cases hl : t.inner.lookup d.symbol.name <;> simp [hs.isError_eq_false]

end ScopeTable

namespace Block

/-- A block leaves the frames around its own alone. -/
theorem outer_scopeAfter (scope : ScopeTable) (b : Block) :
    (b.scopeAfter scope).outer = scope.outer := by
  induction b generalizing scope with
  | done => rfl
  | declare d rest ih =>
    rw [scopeAfter, ih]
    rcases scope.declare_cases d with hd | hd
    · rw [hd]
      rfl
    · rw [hd]
  | assign a rest ih => exact ih _
  | loop w body rest _ ih => exact ih _

/-- What follows a loop is checked in the scope that is left when the frame of its body is closed.
-/
theorem pop_scopeAfter_push (scope : ScopeTable) (body : Block) :
    (body.scopeAfter scope.push).pop = scope := by
  rw [ScopeTable.pop, outer_scopeAfter]
  rfl

end Block

/-- Every visible variable has one of the two types. -/
def Context.Known (Γ : Context) : Prop :=
  ∀ x ty, Γ.read x = some ty → ty ≠ .unknown

namespace Context.Known

variable {Γ : Context}

theorem empty : Context.Known [[]] := by
  intro x ty h
  simp [Frames.read] at h

theorem push (h : Context.Known Γ) : Context.Known Γ.push := by
  intro x ty hx
  rw [Frames.read_push] at hx
  exact h x ty hx

theorem bind (h : Context.Known Γ) {ty : Ty} (ht : ty ≠ .unknown) (x : String) :
    Context.Known (Γ.bind x ty) := by
  intro y ty' hy
  rw [Frames.read_bind] at hy
  split at hy
  · exact Option.some.inj hy ▸ ht
  · exact h y ty' hy

end Context.Known

theorem Ty.eq_of_fits {t expected : Ty} (h : t.fits expected = true) (ht : t ≠ .unknown)
    (he : expected ≠ .unknown) : t = expected := by
  simpa [fits, isUnknown, ht, he] using h

/-- No complaint means that the type found is the one demanded, unless one is not known. -/
theorem TypeFault.eq_of_check {f : TypeFault} {span : Span} (h : f.check span = [])
    (ha : f.actual ≠ .unknown) (he : f.expected ≠ .unknown) : f.actual = f.expected := by
  unfold check at h
  split at h
  · rename_i hfits
    exact Ty.eq_of_fits hfits ha he
  · exact absurd h (by simp)

theorem TypeFault.check_of_eq (f : TypeFault) (h : f.actual = f.expected) (span : Span) :
    f.check span = [] := by
  unfold check
  rw [if_pos (by simp [Ty.fits, h])]

theorem BinaryOp.operand_ne_unknown (op : BinaryOp) : op.operand ≠ .unknown := by
  cases op <;> simp [operand, opClass, OpClass.operand]

theorem BinaryOp.result_ne_unknown (op : BinaryOp) : op.result ≠ .unknown := by
  cases op <;> simp [result, opClass, OpClass.result]

theorem UnaryOp.operand_ne_unknown (op : UnaryOp) : op.operand ≠ .unknown := by
  cases op <;> simp [operand]

/-! ## The checker and the rules -/

namespace Expr

theorem HasTy.ne_unknown {Γ : Context} (hk : Context.Known Γ) {e : Expr} {ty : Ty}
    (h : e.HasTy Γ ty) : ty ≠ .unknown := by
  cases h with
  | @binary _ op => exact op.result_ne_unknown
  | @unary _ op => exact op.operand_ne_unknown
  | bool | int => simp
  | var hx => exact hk _ _ hx

/-- The type the rules give an expression is the one the checker gives it. -/
theorem HasTy.eq_ty {scope : ScopeTable} {e : Expr} {ty : Ty} (h : e.HasTy scope.types ty)
    (hw : e.Whole) : ty = e.ty scope := by
  cases h with
  | binary | unary | bool | int => rfl
  | @var n s _ hx =>
    rw [ScopeTable.read_types, Option.map_eq_some_iff] at hx
    obtain ⟨info, hl, rfl⟩ := hx
    rw [Expr.ty, ScopeTable.find?_eq_lookup hw, hl]
    rfl

theorem hasTy_of_faults {scope : ScopeTable} (hk : Context.Known scope.types) {e : Expr}
    (hw : e.Whole) (hf : e.faults scope = []) : e.HasTy scope.types (e.ty scope) := by
  induction e with
  | binary n op l r ihl ihr =>
    simp only [faults, List.append_eq_nil_iff] at hf
    obtain ⟨⟨⟨hl, hr⟩, hcl⟩, hcr⟩ := hf
    have htl := ihl hw.1 hl
    have htr := ihr hw.2 hr
    -- operands without complaints have real types, so passing the check means having the type
    have hel : l.ty scope = op.operand :=
      TypeFault.eq_of_check hcl (htl.ne_unknown hk) op.operand_ne_unknown
    have her : r.ty scope = op.operand :=
      TypeFault.eq_of_check hcr (htr.ne_unknown hk) op.operand_ne_unknown
    exact .binary (hel ▸ htl) (her ▸ htr)
  | unary n op e ih =>
    simp only [faults, List.append_eq_nil_iff] at hf
    have ht := ih hw hf.1
    have he : e.ty scope = op.operand :=
      TypeFault.eq_of_check hf.2 (ht.ne_unknown hk) op.operand_ne_unknown
    exact .unary (he ▸ ht)
  | bool n b => exact .bool
  | int n v => exact .int
  | var n s =>
    obtain ⟨info, hl⟩ := (ScopeTable.useFaults_eq_nil_iff hw).1 hf
    have hx : scope.types.read s.name = some info.ty := by rw [ScopeTable.read_types, hl]; rfl
    have ht : (Expr.var n s).HasTy scope.types info.ty := .var hx
    exact ht.eq_ty hw ▸ ht
  | hole n => exact hw.elim

theorem faults_of_hasTy {scope : ScopeTable} {e : Expr} {ty : Ty} (h : e.HasTy scope.types ty)
    (hw : e.Whole) : e.faults scope = [] := by
  induction h with
  | @binary n op l r hl hr ihl ihr =>
    have hcl : (TypeFault.left op (l.ty scope)).check l.span = [] :=
      TypeFault.check_of_eq (.left op (l.ty scope)) (hl.eq_ty hw.1).symm _
    have hcr : (TypeFault.right op (r.ty scope)).check r.span = [] :=
      TypeFault.check_of_eq (.right op (r.ty scope)) (hr.eq_ty hw.2).symm _
    simp only [faults, ihl hw.1, ihr hw.2, hcl, hcr, List.append_nil]
  | @unary n op e he ih =>
    have hc : (TypeFault.operand op (e.ty scope)).check e.span = [] :=
      TypeFault.check_of_eq (.operand op (e.ty scope)) (he.eq_ty hw).symm _
    have hr : e.faults scope = [] := ih hw
    simp only [faults, hr, hc, List.append_nil]
  | bool | int => rfl
  | @var n s ty hx =>
    rw [ScopeTable.read_types, Option.map_eq_some_iff] at hx
    obtain ⟨info, hl, -⟩ := hx
    exact (ScopeTable.useFaults_eq_nil_iff hw).2 ⟨info, hl⟩

/-- An expression stands where a type is demanded without complaint exactly when it has it. -/
theorem hasTy_iff_of_check {scope : ScopeTable} (hk : Context.Known scope.types) {e : Expr}
    (hw : e.Whole) (f : TypeFault) (span : Span) (ha : f.actual = e.ty scope)
    (he : f.expected ≠ .unknown) :
    e.HasTy scope.types f.expected ↔ e.faults scope = [] ∧ f.check span = [] := by
  constructor
  · intro h
    exact ⟨faults_of_hasTy h hw, TypeFault.check_of_eq f (ha.trans (h.eq_ty hw).symm) span⟩
  · rintro ⟨hf, hc⟩
    have ht := hasTy_of_faults hk hw hf
    have hty := TypeFault.eq_of_check hc (ha ▸ ht.ne_unknown hk) he
    exact (ha.symm.trans hty) ▸ ht

end Expr

namespace Block

theorem wellTyped_of_faults {scope : ScopeTable} (hk : Context.Known scope.types) {b : Block}
    (hw : b.Whole) (hf : b.faults scope = []) :
    b.WellTyped scope.types (b.scopeAfter scope).types ∧
      Context.Known (b.scopeAfter scope).types := by
  induction b generalizing scope with
  | done => exact ⟨.done, hk⟩
  | declare d rest ih =>
    obtain ⟨hwi, hty, hs, hwr⟩ := hw
    simp only [faults, Declaration.faults, List.append_eq_nil_iff] at hf
    obtain ⟨⟨⟨hfi, hc⟩, hfd⟩, hfr⟩ := hf
    have hnew := (ScopeTable.declareFaults_eq_nil_iff hs).1 hfd
    rw [ScopeTable.declare_eq_extend hs hnew] at hfr
    rw [scopeAfter, ScopeTable.declare_eq_extend hs hnew]
    have hinit := (Expr.hasTy_iff_of_check hk hwi
      (.initializer d.symbol d.ty (d.init.ty scope)) d.init.span rfl hty).2 ⟨hfi, hc⟩
    have hkd : Context.Known (scope.extend d).types := by
      rw [ScopeTable.types_extend]
      exact hk.bind hty _
    obtain ⟨hr, hkr⟩ := ih hkd hwr hfr
    exact ⟨.declare hinit (by rw [ScopeTable.lookup_top_types, hnew]; rfl) hr, hkr⟩
  | assign a rest ih =>
    obtain ⟨hwv, hs, hwr⟩ := hw
    simp only [faults, Assignment.faults, List.append_eq_nil_iff] at hf
    obtain ⟨⟨⟨hfv, hfu⟩, hc⟩, hfr⟩ := hf
    obtain ⟨info, hl⟩ := (ScopeTable.useFaults_eq_nil_iff hs).1 hfu
    rw [ScopeTable.find?_eq_lookup hs, hl] at hc
    -- what is assigned to has a real type, or the check would let anything pass
    have hx : scope.types.read a.symbol.name = some info.ty := by
      rw [ScopeTable.read_types, hl]
      rfl
    have hv := (Expr.hasTy_iff_of_check hk hwv
      (.assigned a.symbol info (a.value.ty scope)) a.value.span rfl (hk _ _ hx)).2 ⟨hfv, hc⟩
    obtain ⟨hr, hkr⟩ := ih hk hwr hfr
    exact ⟨.assign hx hv hr, hkr⟩
  | loop w body rest ihb ihr =>
    obtain ⟨hwc, hwb, hwr⟩ := hw
    simp only [faults, List.append_eq_nil_iff] at hf
    obtain ⟨⟨⟨hfc, hc⟩, hfb⟩, hfr⟩ := hf
    have hcond := (Expr.hasTy_iff_of_check hk hwc
      (.condition (w.cond.ty scope)) w.cond.span rfl Ty.noConfusion).2 ⟨hfc, hc⟩
    have hkp : Context.Known scope.push.types := by
      rw [ScopeTable.types_push]
      exact hk.push
    obtain ⟨hb, -⟩ := ihb hkp hwb hfb
    obtain ⟨hr, hkr⟩ := ihr hk hwr hfr
    exact ⟨.loop hcond hb hr, hkr⟩

theorem faults_of_wellTyped {scope : ScopeTable} (hk : Context.Known scope.types) {b : Block}
    (hw : b.Whole) {Γ' : Context} (h : b.WellTyped scope.types Γ') :
    b.faults scope = [] ∧ (b.scopeAfter scope).types = Γ' := by
  induction b generalizing scope Γ' with
  | done =>
    cases h
    exact ⟨rfl, rfl⟩
  | declare d rest ih =>
    obtain ⟨hwi, hty, hs, hwr⟩ := hw
    cases h with
    | declare hinit hnew hrest =>
      rw [ScopeTable.lookup_top_types, Option.map_eq_none_iff] at hnew
      obtain ⟨hfi, hc⟩ := (Expr.hasTy_iff_of_check hk hwi
        (.initializer d.symbol d.ty (d.init.ty scope)) d.init.span rfl hty).1 hinit
      have hfd := (ScopeTable.declareFaults_eq_nil_iff hs).2 hnew
      have hkd : Context.Known (scope.extend d).types := by
        rw [ScopeTable.types_extend]
        exact hk.bind hty _
      obtain ⟨hfr, hΓ⟩ := ih hkd hwr hrest
      rw [faults, Declaration.faults, hfi, hc, hfd, scopeAfter,
        ScopeTable.declare_eq_extend hs hnew]
      exact ⟨hfr, hΓ⟩
  | assign a rest ih =>
    obtain ⟨hwv, hs, hwr⟩ := hw
    cases h with
    | assign hx hv hrest =>
      have hkx := hk _ _ hx
      rw [ScopeTable.read_types, Option.map_eq_some_iff] at hx
      obtain ⟨info, hl, rfl⟩ := hx
      obtain ⟨hfv, hc⟩ := (Expr.hasTy_iff_of_check hk hwv
        (.assigned a.symbol info (a.value.ty scope)) a.value.span rfl hkx).1 hv
      have hfu := (ScopeTable.useFaults_eq_nil_iff hs).2 ⟨info, hl⟩
      obtain ⟨hfr, hΓ⟩ := ih hk hwr hrest
      rw [faults, Assignment.faults, hfv, hfu, ScopeTable.find?_eq_lookup hs, hl]
      exact ⟨by simp only [hc, hfr, List.append_nil], hΓ⟩
  | loop w body rest ihb ihr =>
    obtain ⟨hwc, hwb, hwr⟩ := hw
    cases h with
    | loop hcond hbody hrest =>
      obtain ⟨hfc, hc⟩ := (Expr.hasTy_iff_of_check hk hwc
        (.condition (w.cond.ty scope)) w.cond.span rfl Ty.noConfusion).1 hcond
      have hkp : Context.Known scope.push.types := by
        rw [ScopeTable.types_push]
        exact hk.push
      obtain ⟨hfb, -⟩ := ihb hkp hwb hbody
      obtain ⟨hfr, hΓ⟩ := ihr hk hwr hrest
      rw [faults, hfc, hc, hfb]
      exact ⟨hfr, hΓ⟩

end Block

namespace Program

/-- A whole program in which the checker finds nothing is well typed, and the type of its result is
the one the checker gives it. -/
theorem wellTyped_of_faults {p : Program} (hw : p.Whole) (hf : p.faults = []) :
    p.body.WellTyped [[]] p.finalScope.types ∧
      p.result.HasTy p.finalScope.types (p.result.ty p.finalScope) := by
  rw [faults, List.append_eq_nil_iff] at hf
  have hk : Context.Known ScopeTable.empty.types := Context.Known.empty
  obtain ⟨hb, hkr⟩ := Block.wellTyped_of_faults hk hw.1 hf.1
  exact ⟨hb, Expr.hasTy_of_faults hkr hw.2 hf.2⟩

/-- **In a whole program the checker finds nothing exactly when the program is well typed.** -/
theorem faults_eq_nil_iff {p : Program} (hw : p.Whole) :
    p.faults = [] ↔ ∃ ty, p.WellTyped ty := by
  constructor
  · intro hf
    exact ⟨_, _, wellTyped_of_faults hw hf⟩
  · rintro ⟨ty, Γ, hb, hr⟩
    have hk : Context.Known ScopeTable.empty.types := Context.Known.empty
    obtain ⟨hfb, hΓ⟩ := Block.faults_of_wellTyped hk hw.1 hb
    have hfr : p.result.faults p.finalScope = [] := Expr.faults_of_hasTy (hΓ ▸ hr) hw.2
    rw [faults, hfb, hfr]
    rfl

end Program

end WhileLang
