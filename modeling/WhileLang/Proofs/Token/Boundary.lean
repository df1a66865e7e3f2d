import Mathlib.Data.List.TakeWhile

/-!
# `WhileLang/Proofs/Token/Boundary.lean` — where a run of characters ends

Words and numbers are cut off **at the first character that cannot go on with them**. So they are
read as they were written when nothing of the kind follows.
-/

set_option autoImplicit false

namespace WhileLang

/-- The text does not begin with a character of the kind. -/
def Boundary (p : Char → Bool) (text : List Char) : Prop :=
  ∀ c, text.head? = some c → p c = false

theorem Boundary.nil {p : Char → Bool} : Boundary p [] := by
  intro c h
  cases h

theorem Boundary.cons {p : Char → Bool} {c : Char} (h : p c = false) (text : List Char) :
    Boundary p (c :: text) := by
  intro d hd
  obtain rfl := Option.some.inj hd
  exact h

/-- A run of one kind ends where no character of a larger kind follows. -/
theorem takeWhile_append_of_boundary {p q : Char → Bool} (hpq : ∀ c, p c = true → q c = true)
    {more rest : List Char} (hm : ∀ c ∈ more, p c = true) (hr : Boundary q rest) :
    (more ++ rest).takeWhile p = more := by
  rw [List.takeWhile_append_of_pos hm]
  cases rest with
  | nil => simp
  | cons c rest =>
    have hc : ¬p c = true := fun h => by simpa [hr c rfl] using hpq c h
    rw [List.takeWhile_cons_of_neg hc, List.append_nil]

/-! ## Digits -/

/-- A number is written in digits, and in at least one. -/
theorem exists_toDigits_eq_cons (n : Nat) :
    ∃ c more, Nat.toDigits 10 n = c :: more ∧ ∀ d ∈ c :: more, d.isDigit = true := by
  cases hcs : Nat.toDigits 10 n with
  | nil => exact absurd hcs Nat.toDigits_ne_nil
  | cons c more =>
    refine ⟨c, more, rfl, ?_⟩
    intro d hd
    exact Nat.isDigit_of_mem_toDigits (by decide) (by decide) (hcs ▸ hd)

theorem beq_eq_false_of_isDigit {c d : Char} (hd : d.isDigit = true) (hc : c.isDigit = false) :
    (c == d) = false := by
  rw [beq_eq_false_iff_ne]
  rintro rfl
  simp [hd] at hc

end WhileLang
