import WhileLang.Proofs.Scope.Addresses
import WhileLang.Proofs.Typing.Faults
import WhileLang.Proofs.Typing.Resolution

/-!
# `WhileLang/Proofs/Typing/Lexical.lean` — the checker's scopes say what stands before

The checker carries a scope through the blocks, and what a name means is what the scope says when
the walk comes by. By the tree alone, it is what stands before the name in the lists around it
(`Block.visible`). **The two agree at every address** (`Block.At`), whatever is wrong with the
program: a second declaration of a name leaves the first one in the scope, and a missing name is in
neither.

So every name is bound to the declaration it means by its place, and the complaints about names are
those that the tree gives rise to, one for each and in their order.
-/

set_option autoImplicit false

namespace WhileLang

/-! ## Scopes and declarations -/

/-- The frame has of every name the first declaration in the list. Missing names are not asked
for. -/
def Frame.Holds (f : Frame) (ds : List Declaration) : Prop :=
  ∀ x, x ≠ Symbol.errorName → f.lookup x = (ds.find? (·.symbol.name = x)).map (·.info)

theorem Frame.Holds.append {f : Frame} {ds : List Declaration} (h : Frame.Holds f ds)
    {d : Declaration} (hd : d.symbol.isError = true ∨ (f.lookup d.symbol.name).isSome) :
    Frame.Holds f (ds ++ [d]) := by
  intro x hx
  rw [h x hx, List.find?_append]
  cases hfind : ds.find? (·.symbol.name = x) with
  | some first => rfl
  | none =>
    -- the name of the new declaration is not asked for, or it was found before
    have hne : d.symbol.name ≠ x := by
      rintro rfl
      rcases hd with hd | hd
      · exact hx (by simpa [Symbol.isError] using hd)
      · rw [h _ hx, hfind] at hd
        simp at hd
    simp [hne]

theorem Frame.Holds.bind {f : Frame} {ds : List Declaration} (h : Frame.Holds f ds)
    {d : Declaration} (hd : f.lookup d.symbol.name = none) :
    Frame.Holds ((d.symbol.name, d.info) :: f) (ds ++ [d]) := by
  intro x hx
  rw [List.find?_append]
  by_cases hxd : x = d.symbol.name
  · subst hxd
    have hnone := h _ hx
    rw [hd, eq_comm, Option.map_eq_none_iff] at hnone
    simp [hnone]
  · have hne : d.symbol.name ≠ x := Ne.symm hxd
    rw [List.lookup_cons, beq_false_of_ne hxd, h x hx]
    cases ds.find? (·.symbol.name = x) <;> simp [hne]

namespace ScopeTable

/-- The frames hold the lists of declarations one by one, from the inside out. -/
def Holds (t : ScopeTable) (dss : List (List Declaration)) : Prop :=
  List.Forall₂ Frame.Holds t.frames dss

namespace Holds

variable {t : ScopeTable} {ds : List Declaration} {dss : List (List Declaration)}

theorem empty : empty.Holds [[]] := .cons (fun _ _ => rfl) .nil

theorem push (h : t.Holds dss) : t.push.Holds ([] :: dss) := .cons (fun _ _ => rfl) h

theorem inner (h : t.Holds (ds :: dss)) : Frame.Holds t.inner ds := (List.forall₂_cons.1 h).1

theorem declare (h : t.Holds (ds :: dss)) (d : Declaration) :
    (t.declare d).Holds ((ds ++ [d]) :: dss) := by
  obtain ⟨hinner, houter⟩ := List.forall₂_cons.1 h
  unfold ScopeTable.declare bind
  by_cases hs : d.symbol.isError
  · rw [if_pos hs]
    exact .cons (hinner.append (.inl hs)) houter
  · rw [if_neg hs]
    cases hl : t.inner.lookup d.symbol.name with
    | some prior => exact .cons (hinner.append (.inr (by rw [hl]; rfl))) houter
    | none => exact .cons (hinner.bind hl) houter

theorem lookup (h : t.Holds dss) {x : String} (hx : x ≠ Symbol.errorName) :
    t.lookup x = (dss.findSome? fun ds => ds.find? (·.symbol.name = x)).map (·.info) := by
  unfold Holds at h
  unfold ScopeTable.lookup
  generalize t.frames = fs at h
  induction h with
  | nil => rfl
  | @cons f ds fs dss hf _ ih =>
    rw [List.findSome?_cons, List.findSome?_cons, hf x hx, ih]
    cases ds.find? (·.symbol.name = x) <;> rfl

end Holds

end ScopeTable

/-! ## On the way through a program -/

/-- The walk has come to `b`, as what is left of a list of `whole`, and the scope holds what was
passed in this list and in those around it. -/
def Block.At (whole : Block) (outer : Address) (n : Nat) (scope : ScopeTable) (b : Block) : Prop :=
  ∃ ds dss, whole.Left outer n b ds dss ∧ scope.Holds (ds :: dss)

namespace Block.At

variable {whole b body rest : Block} {outer : Address} {n : Nat} {scope : ScopeTable}

theorem start (whole : Block) : whole.At [] 0 .empty whole := ⟨[], [], .start whole, .empty⟩

theorem declare {d : Declaration} (h : whole.At outer n scope (.declare d rest)) :
    whole.At outer (n + 1) (scope.declare d) rest := by
  obtain ⟨ds, dss, hleft, hholds⟩ := h
  exact ⟨ds ++ [d], dss, hleft.declare, hholds.declare d⟩

theorem assign {a : Assignment} (h : whole.At outer n scope (.assign a rest)) :
    whole.At outer (n + 1) scope rest := by
  obtain ⟨ds, dss, hleft, hholds⟩ := h
  exact ⟨ds, dss, hleft.assign, hholds⟩

theorem afterLoop {w : LoopHead} (h : whole.At outer n scope (.loop w body rest)) :
    whole.At outer (n + 1) scope rest := by
  obtain ⟨ds, dss, hleft, hholds⟩ := h
  exact ⟨ds, dss, hleft.afterLoop, hholds⟩

theorem inBody {w : LoopHead} (h : whole.At outer n scope (.loop w body rest)) :
    whole.At (outer ++ [n]) 0 scope.push body := by
  obtain ⟨ds, dss, hleft, hholds⟩ := h
  exact ⟨[], ds :: dss, hleft.inBody, hholds.push⟩

/-- After the last statement the scope holds all of the list. -/
theorem after (h : whole.At outer n scope b) :
    whole.At outer (n + b.ids.length) (b.scopeAfter scope) .done := by
  induction b generalizing n scope with
  | done => exact h
  | declare d rest ih =>
    have hrest := ih h.declare
    rwa [Nat.add_assoc, Nat.add_comm 1] at hrest
  | assign a rest ih =>
    have hrest := ih h.assign
    rwa [Nat.add_assoc, Nat.add_comm 1] at hrest
  | loop w body rest _ ih =>
    have hrest := ih h.afterLoop
    rwa [Nat.add_assoc, Nat.add_comm 1] at hrest

theorem holds (h : whole.At outer n scope b) : scope.Holds (whole.before (outer ++ [n])) := by
  obtain ⟨ds, dss, hleft, hholds⟩ := h
  rwa [hleft.before_eq]

theorem lookup_inner (h : whole.At outer n scope b) {x : String} (hx : x ≠ Symbol.errorName) :
    scope.inner.lookup x = (whole.earlier (outer ++ [n]) x).map (·.info) := by
  obtain ⟨ds, dss, hleft, hholds⟩ := h
  rw [earlier, hleft.before_eq]
  exact hholds.inner x hx

end Block.At

theorem Symbol.ne_errorName {s : Symbol} (hs : s.isError = false) : s.name ≠ errorName := by
  simpa [isError] using hs

/-- What a symbol means to the checker is what it means where it stands. -/
theorem ScopeTable.Holds.find? {scope : ScopeTable} {whole : Block} {a : Address}
    (h : scope.Holds (whole.before a)) {s : Symbol} (hs : s.isError = false) :
    scope.find? s = (whole.visible a s.name).map (·.info) := by
  rw [Block.visible, ← h.lookup (Symbol.ne_errorName hs)]
  unfold ScopeTable.find? find
  cases scope.lookup s.name <;> simp [hs]

/-! ## What names are bound to -/

/-- The tables have for the use the declaration that its name means where it stands, if any. -/
def Annotations.Binds (ann : Annotations) (whole : Block) (u : Use) : Prop :=
  u.symbol.isError = false →
    ann.binding? u.node = (whole.visible u.address u.symbol.name).map (·.decl)

theorem Annotations.binds_of_find? {ann : Annotations} {scope : ScopeTable} {whole : Block}
    {a : Address} (h : scope.Holds (whole.before a)) {node : NodeId} {s : Symbol}
    (hb : ann.binding? node = (scope.find? s).map (·.decl)) : ann.Binds whole ⟨a, node, s⟩ := by
  intro hs
  rw [hb, h.find? hs, Option.map_map]
  rfl

theorem Expr.Recorded.binds {ann : Annotations} {scope : ScopeTable} {whole : Block} {a : Address}
    {e : Expr} (h : e.Recorded ann scope) (ha : scope.Holds (whole.before a)) :
    ∀ u ∈ e.uses a, ann.Binds whole u := by
  intro u hu
  simp only [uses, vars, List.mem_map, List.mem_filterMap] at hu
  obtain ⟨v, ⟨x, hx, hv⟩, rfl⟩ := hu
  cases x with
  | var n s =>
    obtain rfl := Option.some.inj hv
    exact Annotations.binds_of_find? ha ((h _ hx).2 n s rfl)
  | _ => simp [var?] at hv

theorem Block.Recorded.binds {ann : Annotations} {scope : ScopeTable} {whole b : Block}
    {outer : Address} {n : Nat} (h : b.Recorded ann scope) (hat : whole.At outer n scope b) :
    ∀ u ∈ b.uses outer n, ann.Binds whole u := by
  induction b generalizing outer n scope with
  | done => simp [uses]
  | declare d rest ih =>
    obtain ⟨hinit, -, hrest⟩ := h
    rw [uses, List.forall_mem_append]
    exact ⟨hinit.binds hat.holds, ih hrest hat.declare⟩
  | assign a rest ih =>
    obtain ⟨hvalue, htarget, hrest⟩ := h
    rw [uses, List.forall_mem_append, List.forall_mem_append, List.forall_mem_singleton]
    exact ⟨⟨hvalue.binds hat.holds, Annotations.binds_of_find? hat.holds htarget⟩,
      ih hrest hat.assign⟩
  | loop w body rest ihb ihr =>
    obtain ⟨hcond, hbody, hrest⟩ := h
    rw [uses, List.forall_mem_append, List.forall_mem_append]
    exact ⟨⟨hcond.binds hat.holds, ihb hbody hat.inBody⟩, ihr hrest hat.afterLoop⟩

/-- The result of a program stands after all of its statements. -/
theorem Program.holds_finalScope (p : Program) :
    p.finalScope.Holds (p.body.before [p.body.ids.length]) := by
  have hafter := (Block.At.start p.body).after
  rw [Nat.zero_add] at hafter
  exact hafter.holds

theorem Program.Recorded.binds {ann : Annotations} {p : Program} (h : p.Recorded ann) :
    ∀ u ∈ p.uses, ann.Binds p.body u := by
  rw [uses, List.forall_mem_append]
  exact ⟨h.1.binds (.start p.body), h.2.binds p.holds_finalScope⟩

/-! ## What is complained about -/

/-- Besides its value and its target, an assignment is only complained about for types. -/
theorem Assignment.faults_eq (scope : ScopeTable) (a : Assignment) :
    ∃ mismatches, a.faults scope = a.value.faults scope ++ scope.useFaults a.symbol ++ mismatches ∧
      ∀ d ∈ mismatches, d.kind = .typeMismatch := by
  refine ⟨_, rfl, fun d hd => ?_⟩
  split at hd
  · exact TypeFault.kind_of_mem_check hd
  · simp at hd

/-- The places of the complaints about names that are not declared. -/
def undeclaredSpans (ds : List Diagnostic) : List Span :=
  (ds.filter (·.kind = .undeclared)).map (·.span)

/-- The places of the complaints about names that are declared again, and of their notes. -/
def redeclaredSpans (ds : List Diagnostic) : List (Span × List Span) :=
  (ds.filter (·.kind = .redeclaration)).map fun d => (d.span, d.notes.map (·.span))

theorem undeclaredSpans_append (as bs : List Diagnostic) :
    undeclaredSpans (as ++ bs) = undeclaredSpans as ++ undeclaredSpans bs := by
  simp [undeclaredSpans]

theorem redeclaredSpans_append (as bs : List Diagnostic) :
    redeclaredSpans (as ++ bs) = redeclaredSpans as ++ redeclaredSpans bs := by
  simp [redeclaredSpans]

theorem undeclaredSpans_eq_nil {ds : List Diagnostic} {k : DiagnosticKind}
    (h : ∀ d ∈ ds, d.kind = k) (hk : k ≠ .undeclared) : undeclaredSpans ds = [] := by
  rw [undeclaredSpans, List.map_eq_nil_iff, List.filter_eq_nil_iff]
  intro d hd
  simpa [h d hd] using hk

theorem redeclaredSpans_eq_nil {ds : List Diagnostic} {k : DiagnosticKind}
    (h : ∀ d ∈ ds, d.kind = k) (hk : k ≠ .redeclaration) : redeclaredSpans ds = [] := by
  rw [redeclaredSpans, List.map_eq_nil_iff, List.filter_eq_nil_iff]
  intro d hd
  simpa [h d hd] using hk

@[simp] theorem undeclaredSpans_check (f : TypeFault) (span : Span) :
    undeclaredSpans (f.check span) = [] :=
  undeclaredSpans_eq_nil (fun _ => TypeFault.kind_of_mem_check) (by simp)

@[simp] theorem redeclaredSpans_check (f : TypeFault) (span : Span) :
    redeclaredSpans (f.check span) = [] :=
  redeclaredSpans_eq_nil (fun _ => TypeFault.kind_of_mem_check) (by simp)

@[simp] theorem undeclaredSpans_declareFaults (t : ScopeTable) (d : Declaration) :
    undeclaredSpans (t.declareFaults d) = [] :=
  undeclaredSpans_eq_nil (fun _ => ScopeTable.kind_of_mem_declareFaults) (by simp)

@[simp] theorem redeclaredSpans_useFaults (t : ScopeTable) (s : Symbol) :
    redeclaredSpans (t.useFaults s) = [] :=
  redeclaredSpans_eq_nil (fun _ => ScopeTable.kind_of_mem_useFaults) (by simp)

/-- A use is complained about when its name means nothing where it stands. -/
theorem ScopeTable.Holds.undeclaredSpans_useFaults {scope : ScopeTable} {whole : Block}
    {a : Address} (h : scope.Holds (whole.before a)) (node : NodeId) (s : Symbol) :
    undeclaredSpans (scope.useFaults s) =
      ([⟨a, node, s⟩].filter whole.lacks).map (·.symbol.span) := by
  unfold useFaults find
  by_cases hs : s.isError
  · simp [hs, undeclaredSpans, Block.lacks]
  · have hlookup := h.lookup (Symbol.ne_errorName (by simpa using hs))
    rw [hlookup, ← Block.visible]
    cases hv : whole.visible a s.name <;> simp [hs, hv, undeclaredSpans, Block.lacks,
      ScopeFault.diagnostic, Diagnostic.error]

/-- A declaration is complained about when it repeats one, and the first of these is pointed at. -/
theorem Block.At.redeclaredSpans_declareFaults {whole b : Block} {outer : Address} {n : Nat}
    {scope : ScopeTable} (h : whole.At outer n scope b) (d : Declaration) :
    redeclaredSpans (scope.declareFaults d) =
      ([(outer ++ [n], d)].filterMap whole.repeats?).map
        fun r => (r.1.symbol.span, [r.2.symbol.span]) := by
  unfold ScopeTable.declareFaults ScopeTable.bind
  by_cases hs : d.symbol.isError
  · simp [hs, redeclaredSpans, repeats?]
  · have hlookup := h.lookup_inner (Symbol.ne_errorName (by simpa using hs))
    rw [hlookup]
    cases hv : whole.earlier (outer ++ [n]) d.symbol.name <;> simp [hs, hv, redeclaredSpans,
      repeats?, ScopeFault.diagnostic, Diagnostic.error, Diagnostic.withNote, Declaration.info]

/-! ## What is complained about in expressions and blocks -/

namespace Expr

theorem uses_binary (a : Address) (n : Node) (op : BinaryOp) (l r : Expr) :
    (binary n op l r).uses a = l.uses a ++ r.uses a := by
  simp [uses, vars_binary]

theorem uses_unary (a : Address) (n : Node) (op : UnaryOp) (e : Expr) :
    (unary n op e).uses a = e.uses a := by
  rw [uses, vars_unary]
  rfl

theorem undeclaredSpans_faults {scope : ScopeTable} {whole : Block} {a : Address}
    (h : scope.Holds (whole.before a)) (e : Expr) :
    undeclaredSpans (e.faults scope) = ((e.uses a).filter whole.lacks).map (·.symbol.span) := by
  induction e with
  | binary n op l r ihl ihr =>
    simp only [faults, undeclaredSpans_append, undeclaredSpans_check, ihl, ihr, uses_binary,
      List.filter_append, List.map_append, List.append_nil]
  | unary n op e ih =>
    simp only [faults, undeclaredSpans_append, undeclaredSpans_check, ih, uses_unary,
      List.append_nil]
  | var n s => exact h.undeclaredSpans_useFaults n.id s
  | bool | int | hole => rfl

theorem redeclaredSpans_faults (scope : ScopeTable) (e : Expr) :
    redeclaredSpans (e.faults scope) = [] := by
  induction e with
  | binary n op l r ihl ihr =>
    simp only [faults, redeclaredSpans_append, redeclaredSpans_check, ihl, ihr, List.append_nil]
  | unary n op e ih =>
    simp only [faults, redeclaredSpans_append, redeclaredSpans_check, ih, List.append_nil]
  | var n s => exact redeclaredSpans_useFaults scope s
  | bool | int | hole => rfl

end Expr

namespace Block

variable {whole b : Block} {outer : Address} {n : Nat} {scope : ScopeTable}

theorem At.undeclaredSpans_faults (h : whole.At outer n scope b) :
    undeclaredSpans (b.faults scope) =
      ((b.uses outer n).filter whole.lacks).map (·.symbol.span) := by
  induction b generalizing outer n scope with
  | done => rfl
  | declare d rest ih =>
    simp only [faults, Declaration.faults, undeclaredSpans_append, undeclaredSpans_check,
      undeclaredSpans_declareFaults, d.init.undeclaredSpans_faults h.holds, ih h.declare, uses,
      List.filter_append, List.map_append, List.append_nil]
  | assign a rest ih =>
    obtain ⟨mismatches, hfaults, hkind⟩ := a.faults_eq scope
    have htarget := h.holds.undeclaredSpans_useFaults a.node.id a.symbol
    have hmismatches := undeclaredSpans_eq_nil hkind (by simp)
    simp only [faults, hfaults, undeclaredSpans_append, hmismatches, htarget,
      a.value.undeclaredSpans_faults h.holds, ih h.assign, uses, List.map_append,
      List.filter_append, List.append_nil]
  | loop w body rest ihb ihr =>
    simp only [faults, undeclaredSpans_append, undeclaredSpans_check,
      w.cond.undeclaredSpans_faults h.holds, ihb h.inBody, ihr h.afterLoop, uses,
      List.filter_append, List.map_append, List.append_nil]

theorem At.redeclaredSpans_faults (h : whole.At outer n scope b) :
    redeclaredSpans (b.faults scope) = ((b.declared outer n).filterMap whole.repeats?).map
      fun r => (r.1.symbol.span, [r.2.symbol.span]) := by
  induction b generalizing outer n scope with
  | done => rfl
  | declare d rest ih =>
    simp only [faults, Declaration.faults, redeclaredSpans_append, redeclaredSpans_check,
      Expr.redeclaredSpans_faults, h.redeclaredSpans_declareFaults, ih h.declare, declared,
      ← List.map_append, ← List.filterMap_append, List.nil_append, List.singleton_append]
  | assign a rest ih =>
    obtain ⟨mismatches, hfaults, hkind⟩ := a.faults_eq scope
    have hmismatches := redeclaredSpans_eq_nil hkind (by simp)
    simp only [faults, hfaults, redeclaredSpans_append, hmismatches, redeclaredSpans_useFaults,
      Expr.redeclaredSpans_faults, ih h.assign, declared, List.nil_append]
  | loop w body rest ihb ihr =>
    simp only [faults, redeclaredSpans_append, redeclaredSpans_check, Expr.redeclaredSpans_faults,
      ihb h.inBody, ihr h.afterLoop, declared, List.filterMap_append, List.map_append,
      List.nil_append]

end Block

namespace Program

/-- **The complaints about undeclared names are the uses that mean nothing**, in their order. -/
theorem undeclaredSpans_faults (p : Program) :
    undeclaredSpans p.faults = p.unbound.map (·.symbol.span) := by
  have hbody := (Block.At.start p.body).undeclaredSpans_faults
  have hresult := p.result.undeclaredSpans_faults p.holds_finalScope
  rw [faults, undeclaredSpans_append, hbody, hresult, unbound, uses, List.filter_append,
    List.map_append]

/-- **The complaints about repeated names are the repetitions**, in their order. -/
theorem redeclaredSpans_faults (p : Program) :
    redeclaredSpans p.faults =
      p.redeclarations.map fun r => (r.1.symbol.span, [r.2.symbol.span]) := by
  rw [faults, redeclaredSpans_append, (Block.At.start p.body).redeclaredSpans_faults,
    Expr.redeclaredSpans_faults, List.append_nil]
  rfl

end Program

end WhileLang
