import WhileLang.Evaluation
import WhileLang.Proofs.Typing.Valid

/-!
# `WhileLang/Proofs/Evaluation/Matching.lean` — one store, seen as frames

The evaluator has one flat store, and every language with blocks that it is compared with has a
stack of frames. What holds before and after every statement is `View.Matches`: the scope of the
checker and the frames have the same shape, and **the entry in the place of a declaration is the one
for the value that the store has under its number**. A `View` says what that entry is: which name
the language has for the variable, and what it keeps there.

The store has more in it: what the last round of a loop declared stays there. Nothing is said of
such entries, and nothing needs to be, since a visible declaration got its value when it became
visible. What keeps the visible ones from being overwritten is that all declarations have different
numbers.
-/

set_option autoImplicit false

namespace WhileLang

/-- The type of a value. -/
def Value.ty : Value → Ty
  | .int _ => .int
  | .bool _ => .bool

theorem Value.ty_eq_int {v : Value} : v.ty = .int ↔ ∃ n, v = .int n := by
  cases v <;> simp [ty]

theorem Value.ty_eq_bool {v : Value} : v.ty = .bool ↔ ∃ b, v = .bool b := by
  cases v <;> simp [ty]

/-! ## Stores and frames -/

/-- How frames show the variables: under which name, and what they have for a value. -/
structure View (β : Type) where
  name : String × DeclInfo → String
  entry : DeclInfo → Value → β

namespace View

variable {β : Type} (V : View β)

/-- A declaration has a value of its type in the store, and this is the entry for it. -/
def HoldsAt (store : Store) (p : String × DeclInfo) (q : String × β) : Prop :=
  ∃ v, store[p.2.decl.index]? = some v ∧ v.ty = p.2.ty ∧ q = (V.name p, V.entry p.2 v)

/-- The frames show the values that the store has for what is declared in the scope. -/
def Matches (scope : ScopeTable) (store : Store) (fs : Frames β) : Prop :=
  Frames.Rel (V.HoldsAt store) scope.frames fs

variable {V}

theorem HoldsAt.name_eq {store : Store} {p : String × DeclInfo} {q : String × β}
    (h : V.HoldsAt store p q) : q.1 = V.name p := by
  obtain ⟨v, -, -, rfl⟩ := h
  rfl

/-- The store may change at other numbers. -/
theorem HoldsAt.insert {store : Store} {p : String × DeclInfo} {q : String × β}
    (h : V.HoldsAt store p q) {number : UInt32} (hne : number ≠ p.2.decl.index) (v : Value) :
    V.HoldsAt (store.insert number v) p q := by
  obtain ⟨w, hw, ht, hq⟩ := h
  exact ⟨w, by simpa [Std.TreeMap.getElem?_insert, hne] using hw, ht, hq⟩

namespace Matches

variable {scope : ScopeTable} {store : Store} {fs : Frames β}

theorem empty : V.Matches .empty .empty [[]] := .cons .nil .nil

theorem push (h : V.Matches scope store fs) : V.Matches scope.push store fs.push :=
  Frames.Rel.push h

/-- Closing a frame takes back what was declared in it. -/
theorem pop {inner : ScopeTable} (h : V.Matches inner store fs)
    (ho : inner.outer = scope.frames) : V.Matches scope store fs.pop := by
  have hp : Frames.Rel (V.HoldsAt store) inner.outer fs.pop := Frames.Rel.pop h
  rwa [ho] at hp

theorem read (h : V.Matches scope store fs) {p : String × DeclInfo}
    (hp : (Frames.entries scope.frames).find? (fun q => V.name q = V.name p) = some p) :
    ∃ v, store[p.2.decl.index]? = some v ∧ v.ty = p.2.ty ∧
      fs.read (V.name p) = some (V.entry p.2 v) := by
  obtain ⟨b, hb, v, hv, ht, hq⟩ := Frames.Rel.read h (fun p q hpq => by rw [hpq.name_eq]) hp
  obtain rfl := (Prod.mk.inj hq).2
  exact ⟨v, hv, ht, hb⟩

/-- A name that no declaration in scope has is not there. -/
theorem read_eq_none (h : V.Matches scope store fs) {y : String}
    (hy : ∀ p ∈ Frames.entries scope.frames, V.name p ≠ y) : fs.read y = none := by
  rw [Frames.read_eq_find?, Option.map_eq_none_iff, List.find?_eq_none]
  intro q hq
  obtain ⟨p, hp, hpq⟩ := Frames.exists_of_mem_right (Frames.Rel.entries h) hq
  simpa [hpq.name_eq] using hy p hp

theorem declare (h : V.Matches scope store fs) {d : Declaration} {v : Value} (hv : v.ty = d.ty)
    (hd : d.decl.index ∉ scope.declNumbers) :
    V.Matches (scope.extend d) (store.insert d.decl.index v)
      (fs.bind (V.name (d.symbol.name, d.info)) (V.entry d.info v)) := by
  have hold : Frames.Rel (V.HoldsAt (store.insert d.decl.index v)) scope.frames fs := by
    apply Frames.Rel.imp h
    intro p hp q hpq
    have hne : d.decl.index ≠ p.2.decl.index := fun he => hd (he ▸ ScopeTable.mem_declNumbers hp)
    exact hpq.insert hne v
  exact hold.bind (p := (d.symbol.name, d.info)) (q := (V.name (d.symbol.name, d.info), _))
    ⟨v, by simp [Declaration.info], hv, rfl⟩

theorem write (h : V.Matches scope store fs) {p : String × DeclInfo}
    (hp : (Frames.entries scope.frames).find? (fun q => V.name q = V.name p) = some p)
    (hd : scope.declNumbers.Nodup) {v : Value} (hv : v.ty = p.2.ty) :
    ∃ fs', fs.write (V.name p) (V.entry p.2 v) = some fs' ∧
      V.Matches scope (store.insert p.2.decl.index v) fs' := by
  have hmem := List.mem_of_find?_eq_some hp
  have hin : Frames.Rel (fun p q => p ∈ Frames.entries scope.frames ∧ V.HoldsAt store p q)
      scope.frames fs := Frames.Rel.imp h fun p hp q hpq => ⟨hp, hpq⟩
  refine hin.write (fun p q hpq => by rw [hpq.2.name_eq]) hp (List.Nodup.of_map _ hd)
    (fun q hpq => ⟨v, by simp, hv, rfl⟩) ?_
  rintro p' q hne ⟨hp', hpq⟩
  -- the other entries are those of other declarations
  have hnum : p.2.decl.index ≠ p'.2.decl.index := fun he =>
    hne (List.inj_on_of_nodup_map hd hp' hmem he.symm)
  exact hpq.insert hnum v

end Matches

end View

end WhileLang
