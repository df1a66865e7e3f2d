import Mathlib.Data.Nat.Find
import WhileLang.Evaluation

/-!
# `WhileLang/Proofs/Evaluation/Rounds.lean` — running with more rounds

A run is given a bound on the rounds of its loops, and has no answer when that is not enough.
**The bound decides whether there is an answer, never which**: an answer stays when the bound grows
(`Upto`). So a program either has no answer under any bound, and diverges, or it comes to one answer
from some bound on (`Settles`).

Two runs of different kinds go **in step** when they are exhausted together or come to related
results, and neither fails (`InStep`). Loops of any kind go in step as soon as their conditions
agree and their bodies do; this is the one induction over rounds.
-/

set_option autoImplicit false

namespace WhileLang

namespace Bounded

variable {ε ε' α β γ δ σ τ : Type}

/-- The three things a bounded run can come to. -/
theorem cases_run (x : Bounded ε α) :
    x = exhausted ∨ (∃ e, x = throw e) ∨ ∃ a, x = pure a := by
  match x with
  | none => exact .inl rfl
  | some (.error e) => exact .inr (.inl ⟨e, rfl⟩)
  | some (.ok a) => exact .inr (.inr ⟨a, rfl⟩)

@[simp] theorem exhausted_bind (f : α → Bounded ε β) : exhausted >>= f = exhausted := rfl

@[simp] theorem throw_bind (e : ε) (f : α → Bounded ε β) : (throw e >>= f) = throw e := rfl

@[simp] theorem ofExcept_ok (a : α) : (ofExcept (.ok a) : Bounded ε α) = pure a := rfl

@[simp] theorem ofExcept_error (e : ε) : (ofExcept (.error e) : Bounded ε α) = throw e := rfl

/-- What comes to a result came to one before its last step. -/
theorem exists_of_bind_eq_pure {x : Bounded ε α} {f : α → Bounded ε β} {b : β}
    (h : x >>= f = pure b) : ∃ a, x = pure a ∧ f a = pure b := by
  rcases cases_run x with rfl | ⟨e, rfl⟩ | ⟨a, rfl⟩
  · cases h
  · cases h
  · exact ⟨a, rfl, h⟩

/-! ## Loops and what comes after them -/

/-- A loop whose condition fails is over; otherwise there is a round, if there may be one more. -/
theorem iterate_bind (cond : σ → Except ε Bool) (body : σ → Bounded ε σ) (f : σ → Bounded ε α)
    (bound : Nat) (s : σ) :
    (iterate cond body bound s >>= f) = ofExcept (cond s) >>= fun b =>
      if b then
        match bound with
        | 0 => exhausted
        | bound + 1 => body s >>= fun s => iterate cond body bound s >>= f
      else f s := by
  cases bound with
  | zero =>
    rw [iterate]
    cases cond s with
    | error e => rfl
    | ok b => cases b <;> rfl
  | succ bound =>
    rw [iterate]
    cases cond s with
    | error e => rfl
    | ok b =>
      cases b with
      | false => rfl
      | true => simp only [ofExcept_ok, pure_bind, if_true, bind_assoc]

/-! ## Runs in step -/

/-- Both runs are exhausted, or both come to a result and the results are related. -/
inductive InStep (R : α → β → Prop) : Bounded ε α → Bounded ε' β → Prop where
  | exhausted : InStep R exhausted exhausted
  | pure {a : α} {b : β} : R a b → InStep R (pure a) (pure b)

namespace InStep

theorem ofExcept {R : α → β → Prop} {x : Except ε α} {y : Except ε' β} {a : α} {b : β}
    (hx : x = .ok a) (hy : y = .ok b) (h : R a b) :
    InStep R (Bounded.ofExcept x) (Bounded.ofExcept y) := by
  subst hx hy
  exact .pure h

theorem bind {R : α → β → Prop} {S : γ → δ → Prop} {x : Bounded ε α} {y : Bounded ε' β}
    {f : α → Bounded ε γ} {g : β → Bounded ε' δ} (h : InStep R x y)
    (hf : ∀ a b, R a b → InStep S (f a) (g b)) : InStep S (x >>= f) (y >>= g) := by
  cases h with
  | exhausted => exact .exhausted
  | pure hab =>
    rw [pure_bind, pure_bind]
    exact hf _ _ hab

theorem imp {R S : α → β → Prop} {x : Bounded ε α} {y : Bounded ε' β} (h : InStep R x y)
    (hRS : ∀ a b, R a b → S a b) : InStep S x y := by
  cases h with
  | exhausted => exact .exhausted
  | pure hab => exact .pure (hRS _ _ hab)

/-- What the first run came to is known of its result. -/
theorem result {R : α → β → Prop} {x : Bounded ε α} {y : Bounded ε' β} (h : InStep R x y) :
    InStep (fun a b => x = Pure.pure a ∧ R a b) x y := by
  cases h with
  | exhausted => exact .exhausted
  | pure hab => exact .pure ⟨rfl, hab⟩

/-- Loops go in step when their conditions agree and their bodies go in step, from related states
to related states. In the last states the conditions fail. -/
theorem iterate {I : σ → τ → Prop} {cond : σ → Except ε Bool} {cond' : τ → Except ε' Bool}
    {body : σ → Bounded ε σ} {body' : τ → Bounded ε' τ}
    (hc : ∀ s t, I s t → ∃ b, cond s = .ok b ∧ cond' t = .ok b)
    (hb : ∀ s t, I s t → cond s = .ok true → InStep I (body s) (body' t)) :
    ∀ (bound : Nat) (s : σ) (t : τ), I s t →
      InStep (fun s t => cond s = .ok false ∧ I s t) (WhileLang.iterate cond body bound s)
        (WhileLang.iterate cond' body' bound t) := by
  intro bound
  induction bound with
  | zero =>
    intro s t h
    obtain ⟨b, hs, ht⟩ := hc s t h
    simp only [WhileLang.iterate, hs, ht, ofExcept_ok, pure_bind]
    cases b
    · exact .pure ⟨hs, h⟩
    · exact .exhausted
  | succ bound ih =>
    intro s t h
    obtain ⟨b, hs, ht⟩ := hc s t h
    simp only [WhileLang.iterate, hs, ht, ofExcept_ok, pure_bind]
    cases b
    · exact .pure ⟨hs, h⟩
    · exact (hb s t h hs).bind ih

end InStep

/-! ## Larger bounds -/

/-- The second run gives the answer of the first, if the first gives any. -/
def Upto (x y : Bounded ε α) : Prop := x = exhausted ∨ x = y

namespace Upto

theorem refl (x : Bounded ε α) : Upto x x := .inr rfl

theorem bind {x y : Bounded ε α} {f g : α → Bounded ε β} (h : Upto x y)
    (hf : ∀ a, Upto (f a) (g a)) : Upto (x >>= f) (y >>= g) := by
  rcases h with rfl | rfl
  · exact .inl rfl
  · rcases cases_run x with rfl | ⟨e, rfl⟩ | ⟨a, rfl⟩
    · exact .inl rfl
    · exact .inr rfl
    · rw [pure_bind, pure_bind]
      exact hf a

theorem iterate {cond : σ → Except ε Bool} {body body' : σ → Bounded ε σ}
    (hb : ∀ s, Upto (body s) (body' s)) {bound bound' : Nat} (h : bound ≤ bound') (s : σ) :
    Upto (WhileLang.iterate cond body bound s) (WhileLang.iterate cond body' bound' s) := by
  induction bound generalizing bound' s with
  | zero =>
    -- without rounds there is an answer only if the condition fails at once
    cases hc : cond s with
    | error e => cases bound' <;> simp only [WhileLang.iterate, hc] <;> exact .inr rfl
    | ok b =>
      cases b
      · cases bound' <;> simp only [WhileLang.iterate, hc] <;> exact .inr rfl
      · exact .inl (by simp [WhileLang.iterate, hc])
  | succ bound ih =>
    obtain ⟨k, rfl⟩ := Nat.exists_eq_add_of_le' (Nat.lt_of_succ_le h)
    simp only [WhileLang.iterate]
    refine (refl _).bind fun b => ?_
    cases b
    · exact refl _
    · exact (hb s).bind fun s' => ih (Nat.le_of_succ_le_succ h) s'

end Upto

end Bounded

theorem Block.run_upto (ann : Annotations) {bound bound' : Nat} (h : bound ≤ bound') (b : Block)
    (store : Store) : Bounded.Upto (b.run ann bound store) (b.run ann bound' store) := by
  induction b generalizing store with
  | done => exact .refl _
  | declare d rest ih => exact (Bounded.Upto.refl _).bind fun _ => ih _
  | assign a rest ih =>
    exact (Bounded.Upto.refl _).bind fun _ => (Bounded.Upto.refl _).bind fun _ => ih _
  | loop w body rest ihb ihr => exact (Bounded.Upto.iterate ihb h store).bind ihr

theorem Program.eval_upto (p : Program) (ann : Annotations) {bound bound' : Nat}
    (h : bound ≤ bound') : Bounded.Upto (p.eval ann bound) (p.eval ann bound') :=
  (p.body.run_upto ann h .empty).bind fun _ => .refl _

/-! ## What a run comes to -/

/-- There is no answer under any bound. -/
def Diverges {α : Type} (f : Nat → Option α) : Prop :=
  ∀ bound, f bound = none

/-- From some bound on the answer is `r`, and below it there is none. -/
def Settles {α : Type} (f : Nat → Option α) (r : α) : Prop :=
  ∃ least, ∀ bound, f bound = if least ≤ bound then some r else none

/-- Answers that stay are all the same one. -/
theorem settles_of_eq_some {α : Type} {f : Nat → Option α}
    (hf : ∀ m n, m ≤ n → f m = none ∨ f m = f n) {bound : Nat} {r : α} (h : f bound = some r) :
    Settles f r := by
  have hex : ∃ n, f n ≠ none := ⟨bound, by simp [h]⟩
  classical
  refine ⟨Nat.find hex, fun n => ?_⟩
  -- the answer at the least bound that has one stays up to `bound`, where it is `r`
  have hleast : f (Nat.find hex) = some r := by
    have hle : Nat.find hex ≤ bound := Nat.find_min' hex (by simp [h])
    rw [← h]
    exact (hf _ _ hle).resolve_left (Nat.find_spec hex)
  split
  · rename_i hle
    rw [← hleast]
    exact ((hf _ _ hle).resolve_left (Nat.find_spec hex)).symm
  · rename_i hlt
    exact not_not.1 (Nat.find_min hex (Nat.lt_of_not_le hlt))

end WhileLang
