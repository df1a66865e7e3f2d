import WhileLang.Proofs.Scope.Mentions
import WhileLang.Proofs.Target.Names
import WhileLang.Proofs.Target.Resolved
import WhileLang.Proofs.Typing.Lexical

/-!
# `WhileLang/Proofs/Target/Renamed.lean` — the name that replaces a name

The name that a declaration gets is made of its own symbol and its own number. The name that a use
gets is made of the symbol of the use and of what the tables say it is bound to. **In a valid
program the two are one name** (`Program.Valid.exists_means`), and no two declarations share one.
-/

set_option autoImplicit false

namespace WhileLang

/-- The name of the variable that a declaration makes. -/
def Declaration.targetName (d : Declaration) : String := Target.varName d.symbol.name d.decl

/-- The name that is written for one of the source. -/
def Mention.targetName (ann : Annotations) : Mention → String
  | .declares _ d => d.targetName
  | .uses u => ann.targetName u.node u.symbol.name

theorem Expr.map_targetName_mentions (ann : Annotations) (a : Address) (e : Expr) :
    (e.mentions a).map (·.targetName ann) = e.vars.map fun v => ann.targetName v.1 v.2.name := by
  simp [mentions, uses, Mention.targetName]

/-! ## Declarations with numbers of their own -/

/-- Declarations with different numbers have different names. -/
theorem Declaration.nodup_map_targetName {ds : List Declaration}
    (h : (ds.map (·.decl.index)).Nodup) : (ds.map targetName).Nodup := by
  rw [List.nodup_map_iff_inj_on h.of_map]
  intro d hd d' hd' hname
  exact List.inj_on_of_nodup_map h hd hd' (congrArg DeclId.index (Target.varName_inj hname))

/-- The address of a declaration is known from its name. -/
theorem Declaration.address_eq_of_targetName {ds : List (Address × Declaration)}
    (h : (ds.map (·.2.decl.index)).Nodup) {a a' : Address} {d d' : Declaration}
    (hmem : (a, d) ∈ ds) (hmem' : (a', d') ∈ ds) (hname : d.targetName = d'.targetName) :
    a = a' := by
  have hindex : d.decl.index = d'.decl.index := congrArg DeclId.index (Target.varName_inj hname)
  exact congrArg Prod.fst (List.inj_on_of_nodup_map h hmem hmem' hindex)

namespace Program.Valid

variable {ann : Annotations} {p : Program}

theorem nodup_declared (h : p.Valid ann) :
    ((p.body.declared [] 0).map (·.2.decl.index)).Nodup := by
  have hnumbers := h.distinct
  rwa [p.body.declNumbers_eq_map, ← p.body.map_snd_declared [] 0, List.map_map] at hnumbers

/-- No two declarations have one name. -/
theorem nodup_targetName (h : p.Valid ann) :
    (p.body.declarations.map Declaration.targetName).Nodup :=
  Declaration.nodup_map_targetName (p.body.declNumbers_eq_map ▸ h.distinct)

theorem isName_of_mem_uses (h : p.Valid ann) {u : Use} (hu : u ∈ p.uses) :
    IsName u.symbol.name := by
  have hmem := p.perm_map_uses.mem_iff.1 (List.mem_map_of_mem (f := fun u : Use =>
    (u.node, u.symbol)) hu)
  rcases List.mem_append.1 hmem with hmem | hmem
  · obtain ⟨e, he, hvar⟩ := List.mem_filterMap.1 hmem
    have hw := h.whole.of_mem_exprs he
    cases e with
    | var n s =>
      obtain ⟨-, rfl⟩ := Prod.mk.inj (Option.some.inj hvar)
      exact hw
    | _ => simp [Expr.var?] at hvar
  · obtain ⟨a, ha, hs⟩ := List.mem_map.1 hmem
    obtain ⟨-, hs⟩ := Prod.mk.inj hs
    exact hs ▸ h.whole.1.of_mem_assignments ha

/-- What a use means is declared before it, and the tables have it for the use. -/
theorem exists_visible (h : p.Valid ann) {u : Use} (hu : u ∈ p.uses) :
    ∃ d, p.visible u.address u.symbol.name = some d ∧ ann.binding? u.node = some d.decl := by
  have hs := (h.isName_of_mem_uses hu).isError_eq_false
  have hbinds := h.recorded.binds u hu hs
  have hnone : p.unbound = [] := by
    have hspans := p.undeclaredSpans_faults
    rw [h.faults] at hspans
    exact List.map_eq_nil_iff.1 hspans.symm
  have hsees := List.filter_eq_nil_iff.1 hnone u hu
  rw [Program.visible]
  cases hv : p.body.visible u.address u.symbol.name with
  | none => exact absurd (by simp [Block.lacks, hs, hv]) hsees
  | some d => exact ⟨d, rfl, by rw [hbinds, hv]; rfl⟩

/-- **The name that is written is that of the declaration that is meant.** -/
theorem exists_means (h : p.Valid ann) {m : Mention} (hm : m ∈ p.mentions) :
    ∃ b d, m.Means p b d ∧ m.targetName ann = d.targetName := by
  cases m with
  | declares a d => exact ⟨a, d, .declares (mem_declared_of_mem_mentions hm), rfl⟩
  | uses u =>
    obtain ⟨d, hsees, hbind⟩ := h.exists_visible (mem_uses_of_mem_mentions hm)
    obtain ⟨b, hmem, hbefore⟩ := Block.exists_declared_of_visible hsees
    have hname := (Block.of_visible_eq_some hsees).1
    refine ⟨b, d, .uses hmem hsees hbefore, ?_⟩
    rw [Mention.targetName, ann.targetName_eq hbind, Declaration.targetName, hname]

end Program.Valid

end WhileLang
