import WhileLang.Proofs.Typing.Valid

/-!
# `WhileLang/Proofs/Typing/Sites.lean` — where each expression stands

The rules type an expression in a context, and the context of an expression is not written anywhere:
it comes about on the way through the blocks around it. This file walks that way and lists **every
expression of a program with the types of the variables that are visible where it stands**
(`Program.sites`). The contexts grow as they do in the rules, by what is declared and not by what a
checker makes of it.

In a valid program each of them has exactly one type in its context, and the tables have that type
(`Program.Valid.typesAt`).
-/

set_option autoImplicit false

namespace WhileLang

/-! ## The contexts of a program -/

namespace Block

/-- The context after a block: its own declarations are visible and those of loop bodies are not. -/
def contextAfter (Γ : Context) : Block → Context
  | .done => Γ
  | .declare d rest => rest.contextAfter (Γ.bind d.symbol.name d.ty)
  | .assign _ rest => rest.contextAfter Γ
  | .loop _ _ rest => rest.contextAfter Γ

/-- The expressions of a block that begins in `Γ`, each with the context it stands in. -/
def sites (Γ : Context) : Block → List (Context × Expr)
  | .done => []
  | .declare d rest => d.init.nodes.map (Γ, ·) ++ rest.sites (Γ.bind d.symbol.name d.ty)
  | .assign a rest => a.value.nodes.map (Γ, ·) ++ rest.sites Γ
  | .loop w body rest => w.cond.nodes.map (Γ, ·) ++ body.sites Γ.push ++ rest.sites Γ

theorem map_snd_sites (Γ : Context) (b : Block) : (b.sites Γ).map (·.2) = b.exprs := by
  induction b generalizing Γ with
  | done => rfl
  | declare d rest ih => simp [sites, exprs, ih, Function.comp_def]
  | assign a rest ih => simp [sites, exprs, ih, Function.comp_def]
  | loop w body rest ihb ihr => simp [sites, exprs, ihb, ihr, Function.comp_def]

end Block

/-- The expressions of a program, each with the context it stands in; those of the result stand
after the whole body. -/
def Program.sites (p : Program) : List (Context × Expr) :=
  p.body.sites [[]] ++ p.result.nodes.map (p.body.contextAfter [[]], ·)

/-- No expression of the program is left out. -/
theorem Program.map_snd_sites (p : Program) : p.sites.map (·.2) = p.exprs := by
  simp [sites, exprs, Block.map_snd_sites, Function.comp_def]

/-! ## Parts of valid trees -/

namespace Expr.Valid

variable {ann : Annotations} {scope : ScopeTable} {e x : Expr} {ty : Ty}

/-- Every expression in a valid one is valid. -/
theorem of_mem_nodes (h : e.Valid ann scope ty) (hx : x ∈ e.nodes) : ∃ t, x.Valid ann scope t := by
  induction e generalizing ty with
  | binary n op l r ihl ihr =>
    obtain ⟨hl, hr, -⟩ := h.binary
    simp only [nodes, List.mem_append, List.mem_singleton] at hx
    rcases hx with (hx | hx) | rfl
    · exact ihl hl hx
    · exact ihr hr hx
    · exact ⟨ty, h⟩
  | unary n op e ih =>
    simp only [nodes, List.mem_append, List.mem_singleton] at hx
    rcases hx with hx | rfl
    · exact ih h.unary.1 hx
    · exact ⟨ty, h⟩
  | bool | int | var | hole =>
    simp only [nodes, List.mem_singleton] at hx
    exact ⟨ty, hx ▸ h⟩

/-- What the rules say of a valid expression is what the tables have for it. -/
theorem hasTy_iff_tyOf (h : e.Valid ann scope ty) (t : Ty) :
    e.HasTy scope.types t ↔ ann.tyOf e = t := by
  have hrec : ann.tyOf e = e.ty scope := by
    rw [Annotations.tyOf, (h.recorded e e.self_mem_nodes).1]
    rfl
  rw [hrec]
  constructor
  · intro ht
    exact (ht.eq_ty h.whole).symm
  · rintro rfl
    exact h.typed.eq_ty h.whole ▸ h.typed

end Expr.Valid

/-- In the context the expression has the type that the tables have for it and no other, and that is
one of the two types. -/
def Annotations.TypesAt (ann : Annotations) (site : Context × Expr) : Prop :=
  (∀ ty, site.2.HasTy site.1 ty ↔ ann.tyOf site.2 = ty) ∧ ann.tyOf site.2 ≠ .unknown

theorem Expr.Valid.typesAt {ann : Annotations} {scope : ScopeTable} {e : Expr} {ty : Ty}
    (h : e.Valid ann scope ty) (hk : Context.Known scope.types) :
    ∀ site ∈ e.nodes.map (scope.types, ·), ann.TypesAt site := by
  intro site hsite
  obtain ⟨x, hx, rfl⟩ := List.mem_map.1 hsite
  obtain ⟨t, hxt⟩ := h.of_mem_nodes hx
  refine ⟨hxt.hasTy_iff_tyOf, ?_⟩
  rw [(hxt.hasTy_iff_tyOf t).1 hxt.typed]
  exact hxt.typed.ne_unknown hk

/-- The context that the rules carry through a valid block is what the checker's scope says. -/
theorem Block.Valid.typesAt {ann : Annotations} {scope : ScopeTable} {b : Block}
    (h : b.Valid ann scope) (hk : Context.Known scope.types) :
    (∀ site ∈ b.sites scope.types, ann.TypesAt site) ∧
      b.contextAfter scope.types = (b.scopeAfter scope).types ∧
      Context.Known (b.scopeAfter scope).types := by
  induction b generalizing scope with
  | done => exact ⟨by simp [sites], rfl, hk⟩
  | declare d rest ih =>
    obtain ⟨hinit, -, hdecl, hrest⟩ := h.declare
    have hkd : Context.Known (scope.extend d).types := hk.bind h.whole.2.1 d.symbol.name
    obtain ⟨hsites, hafter, hka⟩ := ih hrest hkd
    rw [sites, List.forall_mem_append, contextAfter, scopeAfter, hdecl]
    exact ⟨⟨hinit.typesAt hk, hsites⟩, hafter, hka⟩
  | assign a rest ih =>
    obtain ⟨info, -, hvalue, -, hrest⟩ := h.assign
    obtain ⟨hsites, hafter, hka⟩ := ih hrest hk
    rw [sites, List.forall_mem_append]
    exact ⟨⟨hvalue.typesAt hk, hsites⟩, hafter, hka⟩
  | loop w body rest ihb ihr =>
    obtain ⟨hcond, hbody, hrest⟩ := h.loop
    obtain ⟨hinner, -, -⟩ := ihb hbody hk.push
    obtain ⟨hsites, hafter, hka⟩ := ihr hrest hk
    rw [sites, List.forall_mem_append, List.forall_mem_append]
    exact ⟨⟨⟨hcond.typesAt hk, hinner⟩, hsites⟩, hafter, hka⟩

/-- **In a valid program the tables have for every expression the one type it has by the rules.** -/
theorem Program.Valid.typesAt {ann : Annotations} {p : Program} (h : p.Valid ann) :
    ∀ site ∈ p.sites, ann.TypesAt site := by
  have hk : Context.Known ScopeTable.empty.types := Context.Known.empty
  obtain ⟨hsites, hafter, hka⟩ := h.body.typesAt hk
  have hafter : p.body.contextAfter [[]] = p.finalScope.types := hafter
  rw [sites, List.forall_mem_append, hafter]
  exact ⟨hsites, h.result.typesAt hka⟩

end WhileLang
