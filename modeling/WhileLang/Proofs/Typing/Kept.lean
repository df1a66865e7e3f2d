import Std.Data.TreeMap.Lemmas
import WhileLang.Typing.Annotations

/-!
# `WhileLang/Proofs/Typing/Kept.lean` — what was found is not lost

The tables of a checker only grow. Where two nodes have one number the second entry replaces the
first, but an entry stays where there was one; so **a variable that means something where it stands
has an entry** (`Program.kept_annotations`), and conversely one without an entry means nothing
there. Unlike what the entry says, this needs nothing of the numbers.
-/

set_option autoImplicit false

namespace WhileLang

namespace Annotations

/-- A node with a declaration in the first tables has one in the second, maybe another. -/
structure Extends (ann ann' : Annotations) : Prop where
  isSome (node : NodeId) : (ann.binding? node).isSome → (ann'.binding? node).isSome

theorem Extends.refl (ann : Annotations) : ann.Extends ann := ⟨fun _ h => h⟩

theorem Extends.trans {ann₁ ann₂ ann₃ : Annotations} (h : ann₁.Extends ann₂)
    (h' : ann₂.Extends ann₃) : ann₁.Extends ann₃ :=
  ⟨fun node hn => h'.isSome node (h.isSome node hn)⟩

theorem Extends.setTy (ann : Annotations) (node : NodeId) (t : Ty) :
    ann.Extends (ann.setTy node t) := ⟨fun _ h => h⟩

theorem Extends.setDecl (ann : Annotations) (d : Declaration) : ann.Extends (ann.setDecl d) :=
  ⟨fun _ h => h⟩

theorem Extends.bind (ann : Annotations) (scope : ScopeTable) (node : NodeId) (s : Symbol) :
    ann.Extends (ann.bind scope node s) := by
  unfold Annotations.bind
  split
  · refine ⟨fun node' h => ?_⟩
    unfold binding? at h ⊢
    rw [Std.TreeMap.getElem?_insert]
    split
    · rfl
    · exact h
  · exact .refl ann

theorem isSome_binding?_bind (ann : Annotations) {scope : ScopeTable} {s : Symbol}
    (h : (scope.find? s).isSome) (node : NodeId) :
    ((ann.bind scope node s).binding? node).isSome := by
  obtain ⟨info, h⟩ := Option.isSome_iff_exists.1 h
  unfold Annotations.bind binding?
  simp [h]

end Annotations

/-! ## Expressions -/

namespace Expr

theorem extends_annotate (scope : ScopeTable) (e : Expr) (ann : Annotations) :
    ann.Extends (e.annotate scope ann) := by
  induction e generalizing ann with
  | binary n op l r ihl ihr => exact ((ihl ann).trans (ihr _)).trans (.setTy ..)
  | unary n op e ih => exact (ih ann).trans (.setTy ..)
  | var n s => exact (Annotations.Extends.bind ..).trans (.setTy ..)
  | bool | int | hole => exact .setTy ..

/-- Every variable of the expression that means something in the scope has an entry. -/
def Kept (ann : Annotations) (scope : ScopeTable) : Expr → Prop
  | .binary _ _ l r => l.Kept ann scope ∧ r.Kept ann scope
  | .unary _ _ e => e.Kept ann scope
  | .var n s => (scope.find? s).isSome → (ann.binding? n.id).isSome
  | .bool _ _ | .int _ _ | .hole _ => True

theorem Kept.extend {ann ann' : Annotations} {scope : ScopeTable} {e : Expr}
    (h : e.Kept ann scope) (hx : ann.Extends ann') : e.Kept ann' scope := by
  induction e with
  | binary n op l r ihl ihr => exact ⟨ihl h.1, ihr h.2⟩
  | unary n op e ih => exact ih h
  | var n s => exact fun hs => hx.isSome _ (h hs)
  | bool | int | hole => trivial

theorem kept_annotate (scope : ScopeTable) (e : Expr) (ann : Annotations) :
    e.Kept (e.annotate scope ann) scope := by
  induction e generalizing ann with
  | binary n op l r ihl ihr =>
    -- the entries of the left operand are still there after those of the right one
    have hl := (ihl ann).extend ((extends_annotate scope r _).trans (.setTy _ n.id op.result))
    exact ⟨hl, (ihr _).extend (.setTy ..)⟩
  | unary n op e ih => exact (ih ann).extend (.setTy ..)
  | var n s => exact fun hs => Annotations.isSome_binding?_bind ann hs n.id
  | bool | int | hole => trivial

end Expr

/-! ## Blocks and programs -/

namespace Block

theorem extends_annotate (scope : ScopeTable) (b : Block) (ann : Annotations) :
    ann.Extends (b.annotate scope ann) := by
  induction b generalizing scope ann with
  | done => exact .refl ann
  | declare d rest ih =>
    exact ((Expr.extends_annotate ..).trans (.setDecl _ d)).trans (ih ..)
  | assign a rest ih => exact ((Expr.extends_annotate ..).trans (.bind ..)).trans (ih ..)
  | loop w body rest ihb ihr => exact ((Expr.extends_annotate ..).trans (ihb ..)).trans (ihr ..)

/-- The same of all variables of a block, and of what is assigned to. -/
def Kept (ann : Annotations) : ScopeTable → Block → Prop
  | _, .done => True
  | scope, .declare d rest => d.init.Kept ann scope ∧ rest.Kept ann (scope.declare d)
  | scope, .assign a rest =>
    a.value.Kept ann scope ∧
      ((scope.find? a.symbol).isSome → (ann.binding? a.node.id).isSome) ∧ rest.Kept ann scope
  | scope, .loop w body rest =>
    w.cond.Kept ann scope ∧ body.Kept ann scope.push ∧ rest.Kept ann scope

theorem Kept.extend {ann ann' : Annotations} {scope : ScopeTable} {b : Block}
    (h : b.Kept ann scope) (hx : ann.Extends ann') : b.Kept ann' scope := by
  induction b generalizing scope with
  | done => trivial
  | declare d rest ih => exact ⟨h.1.extend hx, ih h.2⟩
  | assign a rest ih => exact ⟨h.1.extend hx, fun hs => hx.isSome _ (h.2.1 hs), ih h.2.2⟩
  | loop w body rest ihb ihr => exact ⟨h.1.extend hx, ihb h.2.1, ihr h.2.2⟩

theorem kept_annotate (scope : ScopeTable) (b : Block) (ann : Annotations) :
    b.Kept (b.annotate scope ann) scope := by
  induction b generalizing scope ann with
  | done => trivial
  | declare d rest ih =>
    have hinit := (Expr.kept_annotate scope d.init ann).extend (.setDecl _ d)
    exact ⟨hinit.extend (extends_annotate ..), ih ..⟩
  | assign a rest ih =>
    have hvalue := (Expr.kept_annotate scope a.value ann).extend (.bind _ scope a.node.id a.symbol)
    refine ⟨hvalue.extend (extends_annotate ..), fun hs => ?_, ih ..⟩
    have hbound := Annotations.isSome_binding?_bind (a.value.annotate scope ann) hs a.node.id
    exact (extends_annotate scope rest _).isSome a.node.id hbound
  | loop w body rest ihb ihr =>
    have hcond := (Expr.kept_annotate scope w.cond ann).extend (extends_annotate scope.push body _)
    exact ⟨hcond.extend (extends_annotate ..), (ihb ..).extend (extends_annotate ..), ihr ..⟩

end Block

def Program.Kept (ann : Annotations) (p : Program) : Prop :=
  p.body.Kept ann .empty ∧ p.result.Kept ann p.finalScope

/-- **Whatever means something where it stands has an entry in the tables of the checker.** -/
theorem Program.kept_annotations (p : Program) : p.Kept p.annotations :=
  ⟨(Block.kept_annotate ..).extend (Expr.extends_annotate ..), Expr.kept_annotate ..⟩

end WhileLang
