import WhileLang.Proofs.Tree.Numbers
import WhileLang.Typing.Annotations

/-!
# `WhileLang/Proofs/Typing/Resolution.lean` — the tables say what the checker found

Later phases see neither scopes nor symbols; they look up the number of a node. That they find what
the checker found at that very node needs one thing: **no two nodes of the tree have one number**,
so that no entry is overwritten by a later one. What a tree enters is entered under its own numbers
only (`types_annotate`, `bindings_annotate`, `decls_annotate`), and then each part of it stays as it
was entered while the rest is.
-/

set_option autoImplicit false

namespace WhileLang

namespace Annotations

/-- At a node the tables have its type in the scope, and what it refers to if it is a variable. -/
def Knows (ann : Annotations) (scope : ScopeTable) (e : Expr) : Prop :=
  ann.types[e.id.index]? = some (e.ty scope) ∧
    ∀ n s, e = .var n s → ann.binding? n.id = (scope.find? s).map (·.decl)

/-- The two tables have the same at the number of a node. -/
def SameAt (ann ann' : Annotations) (number : UInt32) : Prop :=
  ann'.types[number]? = ann.types[number]? ∧ ann'.bindings[number]? = ann.bindings[number]?

theorem SameAt.trans {ann₁ ann₂ ann₃ : Annotations} {k : UInt32} (h : ann₁.SameAt ann₂ k)
    (h' : ann₂.SameAt ann₃ k) : ann₁.SameAt ann₃ k :=
  ⟨h'.1.trans h.1, h'.2.trans h.2⟩

theorem SameAt.setTy {ann : Annotations} {node : NodeId} {k : UInt32} (hk : node.index ≠ k)
    (t : Ty) : ann.SameAt (ann.setTy node t) k :=
  ⟨by simp [Annotations.setTy, Std.TreeMap.getElem?_insert, hk], rfl⟩

theorem SameAt.bind {ann : Annotations} {node : NodeId} {k : UInt32} (hk : node.index ≠ k)
    (scope : ScopeTable) (s : Symbol) : ann.SameAt (ann.bind scope node s) k := by
  unfold Annotations.bind
  split
  · exact ⟨rfl, by simp [Std.TreeMap.getElem?_insert, hk]⟩
  · exact ⟨rfl, rfl⟩

theorem SameAt.setDecl (ann : Annotations) (d : Declaration) (k : UInt32) :
    ann.SameAt (ann.setDecl d) k := ⟨rfl, rfl⟩

theorem binding?_bind {ann : Annotations} {node : NodeId}
    (h : ann.bindings[node.index]? = none) (scope : ScopeTable) (s : Symbol) :
    (ann.bind scope node s).binding? node = (scope.find? s).map (·.decl) := by
  unfold Annotations.bind binding?
  cases scope.find? s with
  | none => exact h
  | some info => simp

theorem decls_bind (ann : Annotations) (scope : ScopeTable) (node : NodeId) (s : Symbol) :
    (ann.bind scope node s).decls = ann.decls := by
  unfold Annotations.bind
  split <;> rfl

theorem Knows.of_sameAt {ann ann' : Annotations} {scope : ScopeTable} {e : Expr}
    (h : ann.Knows scope e) (hs : ann.SameAt ann' e.id.index) : ann'.Knows scope e := by
  refine ⟨hs.1.trans h.1, fun n s he => ?_⟩
  subst he
  exact hs.2.trans (h.2 n s rfl)

end Annotations

/-! ## Expressions -/

namespace Expr

/-- The tables say of every node of the expression what the checker says of it in the scope. -/
def Recorded (ann : Annotations) (scope : ScopeTable) (e : Expr) : Prop :=
  ∀ x ∈ e.nodes, ann.Knows scope x

theorem numbers_eq_map_nodes (e : Expr) : e.numbers = e.nodes.map (·.id.index) := by
  induction e with
  | binary n op l r ihl ihr => simp [numbers, nodes, ihl, ihr, Expr.id, node]
  | unary n op e ih => simp [numbers, nodes, ih, Expr.id, node]
  | _ => simp [numbers, nodes, Expr.id, node]

theorem self_mem_nodes (e : Expr) : e ∈ e.nodes := by
  cases e <;> simp [nodes]

theorem Recorded.of_sameAt {ann ann' : Annotations} {scope : ScopeTable} {e : Expr}
    (h : e.Recorded ann scope) (hs : ∀ k ∈ e.numbers, ann.SameAt ann' k) :
    e.Recorded ann' scope := by
  intro x hx
  apply (h x hx).of_sameAt
  apply hs
  rw [numbers_eq_map_nodes]
  exact List.mem_map_of_mem hx

theorem sameAt_annotate (scope : ScopeTable) {k : UInt32} {e : Expr} (hk : k ∉ e.numbers)
    (ann : Annotations) : ann.SameAt (e.annotate scope ann) k := by
  induction e generalizing ann with
  | binary n op l r ihl ihr =>
    simp only [numbers, List.mem_append, List.mem_singleton, not_or] at hk
    exact ((ihl hk.1.1 _).trans (ihr hk.1.2 _)).trans (.setTy (Ne.symm hk.2) _)
  | unary n op e ih =>
    simp only [numbers, List.mem_append, List.mem_singleton, not_or] at hk
    exact (ih hk.1 _).trans (.setTy (Ne.symm hk.2) _)
  | var n s =>
    simp only [numbers, List.mem_singleton] at hk
    exact (Annotations.SameAt.bind (Ne.symm hk) scope s).trans (.setTy (Ne.symm hk) _)
  | bool n _ | int n _ | hole n =>
    simp only [numbers, List.mem_singleton] at hk
    exact .setTy (Ne.symm hk) _

theorem decls_annotate (scope : ScopeTable) (e : Expr) (ann : Annotations) :
    (e.annotate scope ann).decls = ann.decls := by
  induction e generalizing ann with
  | binary n op l r ihl ihr => exact (ihr _).trans (ihl _)
  | unary n op e ih => exact ih _
  | var n s =>
    exact Annotations.decls_bind ann scope n.id s
  | bool n _ | int n _ | hole n => rfl

/-- The type of an expression is entered last, at its own number. -/
theorem types_annotate_self (scope : ScopeTable) (e : Expr) (ann : Annotations) :
    (e.annotate scope ann).types[e.id.index]? = some (e.ty scope) := by
  unfold annotate
  simp [Annotations.setTy]

theorem recorded_annotate (scope : ScopeTable) {e : Expr} (hd : e.numbers.Nodup)
    {ann : Annotations} (hn : ∀ k ∈ e.numbers, ann.bindings[k]? = none) :
    e.Recorded (e.annotate scope ann) scope := by
  induction e generalizing ann with
  | binary n op l r ihl ihr =>
    simp only [numbers, List.nodup_append, List.mem_append, List.mem_singleton,
      forall_eq] at hd hn
    obtain ⟨⟨hdl, hdr, hlr⟩, -, hself⟩ := hd
    -- what is entered for one operand stays while the other one and the operator are entered
    have hl : l.Recorded (l.annotate scope ann) scope := ihl hdl fun k hk => hn k (.inl (.inl hk))
    have hr : r.Recorded (r.annotate scope (l.annotate scope ann)) scope := by
      apply ihr hdr
      intro k hk
      have hkl : k ∉ l.numbers := fun h => hlr k h k hk rfl
      exact (sameAt_annotate scope hkl ann).2.trans (hn k (.inl (.inr hk)))
    intro x hx
    simp only [nodes, List.mem_append, List.mem_singleton] at hx
    rcases hx with (hx | hx) | rfl
    · refine (hl.of_sameAt fun k hk => ?_) x hx
      have hkr : k ∉ r.numbers := fun h => hlr k hk k h rfl
      exact (sameAt_annotate scope hkr _).trans (.setTy (Ne.symm (hself k (.inl hk))) _)
    · exact (hr.of_sameAt fun k hk => .setTy (Ne.symm (hself k (.inr hk))) _) x hx
    · exact ⟨types_annotate_self .., fun _ _ h => by simp at h⟩
  | unary n op e ih =>
    simp only [numbers, List.nodup_append, List.mem_append, List.mem_singleton,
      forall_eq] at hd hn
    obtain ⟨hde, -, hself⟩ := hd
    have he : e.Recorded (e.annotate scope ann) scope := ih hde fun k hk => hn k (.inl hk)
    intro x hx
    simp only [nodes, List.mem_append, List.mem_singleton] at hx
    rcases hx with hx | rfl
    · exact (he.of_sameAt fun k hk => .setTy (Ne.symm (hself k hk)) _) x hx
    · exact ⟨types_annotate_self .., fun _ _ h => by simp at h⟩
  | var n s =>
    intro x hx
    obtain rfl : x = .var n s := by simpa [nodes] using hx
    refine ⟨types_annotate_self .., fun n' s' h => ?_⟩
    obtain ⟨rfl, rfl⟩ := Expr.var.inj h
    exact Annotations.binding?_bind (hn _ (by simp [numbers])) scope s
  | bool n _ | int n _ | hole n =>
    intro x hx
    simp only [nodes, List.mem_singleton] at hx
    subst hx
    exact ⟨types_annotate_self .., fun _ _ h => by simp at h⟩

end Expr

/-! ## Blocks -/

namespace Block

/-- The tables say of every expression, assignment and declaration of the block what the checker
says of it in the scope it stands in. -/
def Recorded (ann : Annotations) : ScopeTable → Block → Prop
  | _, .done => True
  | scope, .declare d rest =>
    d.init.Recorded ann scope ∧ ann.decl? d.decl = some d.info ∧
      rest.Recorded ann (scope.declare d)
  | scope, .assign a rest =>
    a.value.Recorded ann scope ∧
      ann.binding? a.node.id = (scope.find? a.symbol).map (·.decl) ∧ rest.Recorded ann scope
  | scope, .loop w body rest =>
    w.cond.Recorded ann scope ∧ body.Recorded ann scope.push ∧ rest.Recorded ann scope

theorem Recorded.decl? {ann : Annotations} {scope : ScopeTable} {b : Block}
    (h : b.Recorded ann scope) : ∀ d ∈ b.declarations, ann.decl? d.decl = some d.info := by
  induction b generalizing scope with
  | done => simp [declarations]
  | declare d rest ih =>
    obtain ⟨-, hdecl, hrest⟩ := h
    rw [declarations, List.forall_mem_cons]
    exact ⟨hdecl, ih hrest⟩
  | assign a rest ih => exact ih h.2.2
  | loop w body rest ihb ihr =>
    rw [declarations, List.forall_mem_append]
    exact ⟨ihb h.2.1, ihr h.2.2⟩

theorem Recorded.of_sameAt {ann ann' : Annotations} {scope : ScopeTable} {b : Block}
    (h : b.Recorded ann scope) (hs : ∀ k ∈ b.numbers, ann.SameAt ann' k)
    (hd : ∀ k ∈ b.declNumbers, ann'.decls[k]? = ann.decls[k]?) : b.Recorded ann' scope := by
  induction b generalizing scope with
  | done => trivial
  | declare d rest ih =>
    simp only [numbers, declNumbers, List.mem_append, List.mem_cons] at hs hd
    obtain ⟨hinit, hdecl, hrest⟩ := h
    exact ⟨hinit.of_sameAt fun k hk => hs k (.inl (.inl hk)), (hd _ (.inl rfl)).trans hdecl,
      ih hrest (fun k hk => hs k (.inr hk)) fun k hk => hd k (.inr hk)⟩
  | assign a rest ih =>
    simp only [numbers, List.mem_append, List.mem_singleton] at hs
    obtain ⟨hvalue, hbind, hrest⟩ := h
    exact ⟨hvalue.of_sameAt fun k hk => hs k (.inl (.inl hk)),
      (hs _ (.inl (.inr rfl))).2.trans hbind, ih hrest (fun k hk => hs k (.inr hk)) hd⟩
  | loop w body rest ihb ihr =>
    simp only [numbers, declNumbers, List.mem_append, List.mem_singleton] at hs hd
    obtain ⟨hcond, hbody, hrest⟩ := h
    exact ⟨hcond.of_sameAt fun k hk => hs k (.inl (.inl (.inl hk))),
      ihb hbody (fun k hk => hs k (.inl (.inl (.inr hk)))) fun k hk => hd k (.inl hk),
      ihr hrest (fun k hk => hs k (.inr hk)) fun k hk => hd k (.inr hk)⟩

theorem sameAt_annotate {k : UInt32} {b : Block} (hk : k ∉ b.numbers) (scope : ScopeTable)
    (ann : Annotations) : ann.SameAt (b.annotate scope ann) k := by
  induction b generalizing scope ann with
  | done => exact ⟨rfl, rfl⟩
  | declare d rest ih =>
    simp only [numbers, List.mem_append, List.mem_singleton, not_or] at hk
    exact ((Expr.sameAt_annotate scope hk.1.1 ann).trans (.setDecl _ d k)).trans (ih hk.2 _ _)
  | assign a rest ih =>
    simp only [numbers, List.mem_append, List.mem_singleton, not_or] at hk
    exact ((Expr.sameAt_annotate scope hk.1.1 ann).trans (.bind (Ne.symm hk.1.2) _ _)).trans
      (ih hk.2 _ _)
  | loop w body rest ihb ihr =>
    simp only [numbers, List.mem_append, List.mem_singleton, not_or] at hk
    exact ((Expr.sameAt_annotate scope hk.1.1.1 ann).trans (ihb hk.1.1.2 _ _)).trans
      (ihr hk.2 _ _)

theorem decls_annotate {k : UInt32} {b : Block} (hk : k ∉ b.declNumbers) (scope : ScopeTable)
    (ann : Annotations) : (b.annotate scope ann).decls[k]? = ann.decls[k]? := by
  induction b generalizing scope ann with
  | done => rfl
  | declare d rest ih =>
    simp only [declNumbers, List.mem_cons, not_or] at hk
    rw [annotate, ih hk.2, Annotations.setDecl, Expr.decls_annotate,
      Std.TreeMap.getElem?_insert, if_neg (by simpa using Ne.symm hk.1)]
  | assign a rest ih =>
    rw [annotate, ih hk, Annotations.decls_bind, Expr.decls_annotate]
  | loop w body rest ihb ihr =>
    simp only [declNumbers, List.mem_append, not_or] at hk
    rw [annotate, ihr hk.2, ihb hk.1, Expr.decls_annotate]

/-- Every declaration has an entry of its own, so the table counts them. -/
theorem size_decls_annotate {b : Block} (hdd : b.declNumbers.Nodup) (scope : ScopeTable)
    {ann : Annotations} (hn : ∀ k ∈ b.declNumbers, ann.decls[k]? = none) :
    (b.annotate scope ann).decls.size = ann.decls.size + b.declNumbers.length := by
  induction b generalizing scope ann with
  | done => rfl
  | declare d rest ih =>
    simp only [declNumbers, List.nodup_cons, List.mem_cons] at hdd hn
    have hnew : ann.decls.contains d.decl.index = false := by
      rw [Std.TreeMap.contains_eq_isSome_getElem?, hn _ (.inl rfl)]
      rfl
    have hrest : ∀ k ∈ rest.declNumbers,
        ((d.init.annotate scope ann).setDecl d).decls[k]? = none := by
      intro k hk
      have hne : d.decl.index ≠ k := fun he => hdd.1 (he ▸ hk)
      rw [Annotations.setDecl, Expr.decls_annotate, Std.TreeMap.getElem?_insert,
        if_neg (by simpa using hne)]
      exact hn k (.inr hk)
    rw [annotate, ih hdd.2 _ hrest, Annotations.setDecl, Expr.decls_annotate,
      Std.TreeMap.size_insert, hnew, declNumbers, List.length_cons]
    simp only [Bool.false_eq_true, if_false]
    omega
  | assign a rest ih =>
    have hdecls : ((a.value.annotate scope ann).bind scope a.node.id a.symbol).decls = ann.decls :=
      (Annotations.decls_bind ..).trans (Expr.decls_annotate ..)
    have hrest : ∀ k ∈ rest.declNumbers,
        ((a.value.annotate scope ann).bind scope a.node.id a.symbol).decls[k]? = none := by
      rw [hdecls]
      exact hn
    rw [annotate, ih hdd scope hrest, hdecls]
    rfl
  | loop w body rest ihb ihr =>
    simp only [declNumbers, List.nodup_append, List.mem_append] at hdd hn
    obtain ⟨hdb, hdr, hbr⟩ := hdd
    have hbody : ∀ k ∈ body.declNumbers, (w.cond.annotate scope ann).decls[k]? = none := by
      rw [Expr.decls_annotate]
      exact fun k hk => hn k (.inl hk)
    have hrest : ∀ k ∈ rest.declNumbers,
        (body.annotate scope.push (w.cond.annotate scope ann)).decls[k]? = none := by
      intro k hk
      rw [decls_annotate fun h => hbr k h k hk rfl, Expr.decls_annotate]
      exact hn k (.inr hk)
    rw [annotate, ihr hdr scope hrest, ihb hdb scope.push hbody, Expr.decls_annotate, declNumbers,
      List.length_append]
    omega

theorem recorded_annotate (scope : ScopeTable) {b : Block} (hd : b.numbers.Nodup)
    (hdd : b.declNumbers.Nodup) {ann : Annotations}
    (hn : ∀ k ∈ b.numbers, ann.bindings[k]? = none) :
    b.Recorded (b.annotate scope ann) scope := by
  induction b generalizing scope ann with
  | done => trivial
  | declare d rest ih =>
    simp only [numbers, declNumbers, List.nodup_append, List.nodup_cons, List.mem_append,
      List.mem_singleton] at hd hdd hn
    obtain ⟨⟨hdi, -, -⟩, hdr, hir⟩ := hd
    have hinit := Expr.recorded_annotate scope hdi fun k hk => hn k (.inl (.inl hk))
    -- what was entered before stays, since all numbers that follow are others
    refine ⟨hinit.of_sameAt fun k hk => ?_, ?_, ?_⟩
    · exact (Annotations.SameAt.setDecl _ d k).trans
        (sameAt_annotate (fun h => hir k (.inl hk) k h rfl) _ _)
    · rw [Annotations.decl?, annotate, decls_annotate hdd.1, Annotations.setDecl]
      simp
    · apply ih _ hdr hdd.2
      intro k hk
      have hki : k ∉ d.init.numbers := fun h => hir k (.inl h) k hk rfl
      exact (Expr.sameAt_annotate scope hki ann).2.trans (hn k (.inr hk))
  | assign a rest ih =>
    simp only [numbers, List.nodup_append, List.mem_append, List.mem_singleton,
      forall_eq] at hd hn
    obtain ⟨⟨hdv, -, hself⟩, hdr, hvr⟩ := hd
    have hvalue := Expr.recorded_annotate scope hdv fun k hk => hn k (.inl (.inl hk))
    have hrest : a.node.id.index ∉ rest.numbers := fun h => hvr _ (.inr rfl) _ h rfl
    have hvself : a.node.id.index ∉ a.value.numbers := fun h => hself _ h rfl
    refine ⟨hvalue.of_sameAt fun k hk => ?_, ?_, ?_⟩
    · exact (Annotations.SameAt.bind (Ne.symm (hself k hk)) scope a.symbol).trans
        (sameAt_annotate (fun h => hvr k (.inl hk) k h rfl) _ _)
    · have hnone := (Expr.sameAt_annotate scope hvself ann).2.trans (hn _ (.inl (.inr rfl)))
      exact (sameAt_annotate hrest _ _).2.trans (Annotations.binding?_bind hnone scope a.symbol)
    · apply ih _ hdr hdd
      intro k hk
      have hkv : k ∉ a.value.numbers := fun h => hvr k (.inl h) k hk rfl
      have hka : a.node.id.index ≠ k := fun h => hrest (h ▸ hk)
      exact ((Expr.sameAt_annotate scope hkv ann).trans (.bind hka _ _)).2.trans
        (hn k (.inr hk))
  | loop w body rest ihb ihr =>
    simp only [numbers, declNumbers, List.nodup_append, List.mem_append, List.mem_singleton,
      forall_eq] at hd hdd hn
    obtain ⟨⟨⟨hdc, hdb, hcb⟩, -, -⟩, hdr, hall⟩ := hd
    have hcond := Expr.recorded_annotate scope hdc fun k hk => hn k (.inl (.inl (.inl hk)))
    -- nothing is known of the body's nodes yet when its turn comes
    have hnb : ∀ k ∈ body.numbers, (w.cond.annotate scope ann).bindings[k]? = none := by
      intro k hk
      have hkc : k ∉ w.cond.numbers := fun h => hcb k h k hk rfl
      exact (Expr.sameAt_annotate scope hkc ann).2.trans (hn k (.inl (.inl (.inr hk))))
    refine ⟨hcond.of_sameAt fun k hk => ?_, ?_, ?_⟩
    · exact (sameAt_annotate (fun h => hcb k hk k h rfl) _ _).trans
        (sameAt_annotate (fun h => hall k (.inl (.inl hk)) k h rfl) _ _)
    · refine (ihb scope.push hdb hdd.1 hnb).of_sameAt (fun k hk => ?_) fun k hk => ?_
      · exact sameAt_annotate (fun h => hall k (.inl (.inr hk)) k h rfl) _ _
      · exact decls_annotate (fun h => hdd.2.2 k hk k h rfl) _ _
    · apply ihr _ hdr hdd.2.1
      intro k hk
      have hkc : k ∉ w.cond.numbers := fun h => hall k (.inl (.inl h)) k hk rfl
      have hkb : k ∉ body.numbers := fun h => hall k (.inl (.inr h)) k hk rfl
      exact ((Expr.sameAt_annotate scope hkc ann).trans (sameAt_annotate hkb _ _)).2.trans
        (hn k (.inr hk))

end Block

/-! ## Programs -/

namespace Program

/-- The tables say of everything in the program what the checker says of it. -/
def Recorded (ann : Annotations) (p : Program) : Prop :=
  p.body.Recorded ann .empty ∧ p.result.Recorded ann p.finalScope

/-- The table of declarations has as many entries as the program has declarations. -/
theorem declCount_annotations {p : Program} (hdd : p.body.declNumbers.Nodup) :
    p.annotations.declCount = p.body.declarations.length := by
  have hnone : ∀ k ∈ p.body.declNumbers, Annotations.empty.decls[k]? = none := by
    simp [Annotations.empty]
  rw [Annotations.declCount, annotations, Expr.decls_annotate,
    Block.size_decls_annotate hdd .empty hnone, Block.declNumbers_eq_map, List.length_map]
  exact Nat.zero_add _

/-- **The tables of a program whose numbers are all different say what the checker found.** -/
theorem recorded_annotations {p : Program} (hd : p.numbers.Nodup)
    (hdd : p.body.declNumbers.Nodup) : p.Recorded p.annotations := by
  rw [numbers, List.nodup_append] at hd
  obtain ⟨hdb, hdr, hbr⟩ := hd
  have hnone (k : UInt32) : Annotations.empty.bindings[k]? = none := by simp [Annotations.empty]
  have hbody := Block.recorded_annotate .empty hdb hdd fun k _ => hnone k
  refine ⟨hbody.of_sameAt (fun k hk => ?_) fun k _ => ?_, ?_⟩
  · exact Expr.sameAt_annotate _ (fun h => hbr k hk k h rfl) _
  · exact congrArg (·[k]?) (Expr.decls_annotate ..)
  · apply Expr.recorded_annotate _ hdr
    intro k hk
    exact (Block.sameAt_annotate (fun h => hbr k h k hk rfl) _ _).2.trans (hnone k)

end Program

end WhileLang
