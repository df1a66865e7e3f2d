import Mathlib.Data.List.TakeWhile
import Mathlib.Order.Defs.PartialOrder
import WhileLang.Source.Span

/-!
# `WhileLang/Proofs/Token/Places.lean` — what a row and a column count

`Position.step` moves on by one character and knows nothing of the text before it. What comes of it
is a count: **the row is one more than the newlines before, the column one more than the characters
since the last of them** (`Position.Counts`). Both counters are 32-bit words, and both stay below
the number of characters and two, so in a text of fewer than 2³² - 1 characters neither wraps, and
places in it are ordered as the characters are.
-/

set_option autoImplicit false

namespace WhileLang

/-- The row and the column of the character after `before`. -/
structure Position.Counts (p : Position) (before : List Char) : Prop where
  row : p.row.toNat = 1 + before.count '\n'
  column : p.column.toNat = 1 + (before.reverse.takeWhile (· ≠ '\n')).length

namespace Position

variable {p q : Position} {before cs : List Char}

theorem counts_start : start.Counts [] :=
  ⟨rfl, rfl⟩

/-- One character further, as long as the counters have room for it. -/
theorem Counts.step {c : Char} (hp : p.Counts before) (h : (before ++ [c]).length < 4294967295) :
    (p.step c).Counts (before ++ [c]) := by
  rw [List.length_append, List.length_singleton] at h
  have hrow : (p.row + 1).toNat = p.row.toNat + 1 := by
    have hcount : before.count '\n' ≤ before.length := List.count_le_length
    rw [UInt32.toNat_add, UInt32.toNat_one, hp.row]
    exact Nat.mod_eq_of_lt (by omega)
  have hcolumn : (p.column + 1).toNat = p.column.toNat + 1 := by
    have hlast := (List.takeWhile_sublist (· ≠ '\n') (l := before.reverse)).length_le
    rw [List.length_reverse] at hlast
    rw [UInt32.toNat_add, UInt32.toNat_one, hp.column]
    exact Nat.mod_eq_of_lt (by omega)
  by_cases hc : c = '\n'
  · subst hc
    refine ⟨?_, ?_⟩
    · rw [Position.step, if_pos rfl, hrow, hp.row, List.count_append]
      rfl
    · simp [Position.step]
  · refine ⟨?_, ?_⟩
    · rw [Position.step, if_neg hc, hp.row, List.count_append, List.count_singleton]
      simp [hc]
    · rw [Position.step, if_neg hc, hcolumn, hp.column]
      simp [hc]
      omega

theorem Counts.after (hp : p.Counts before) (h : (before ++ cs).length < 4294967295) :
    (p.after cs).Counts (before ++ cs) := by
  induction cs generalizing p before with
  | nil =>
    rw [List.append_nil]
    exact hp
  | cons c cs ih =>
    rw [List.append_cons] at h ⊢
    exact ih (hp.step ((List.prefix_append ..).length_le.trans_lt h)) h

/-- **No counter wraps** before the end of a text of fewer than 2³² - 1 characters. -/
theorem counts_after (h : cs.length < 4294967295) : (start.after cs).Counts cs :=
  counts_start.after h

/-- The last character of a stretch stands after the others. -/
theorem Counts.last (hp : p.Counts before) (h : (before ++ cs).length < 4294967295) :
    (p.last cs).Counts (before ++ cs.dropLast) := by
  refine hp.after (Nat.lt_of_le_of_lt ?_ h)
  rw [List.length_append, List.length_append, List.length_dropLast]
  omega

/-! ## Reading order -/

instance : Preorder Position where
  le_refl p := .inr ⟨rfl, UInt32.le_refl _⟩
  le_trans p q r hpq hqr := by
    rcases hpq with hpq | ⟨hpq, hc⟩
    · rcases hqr with hqr | ⟨hqr, -⟩
      · exact .inl (UInt32.lt_trans hpq hqr)
      · exact .inl (hqr ▸ hpq)
    · rcases hqr with hqr | ⟨hqr, hc'⟩
      · exact .inl (hpq ▸ hqr)
      · exact .inr ⟨hpq.trans hqr, UInt32.le_trans hc hc'⟩

/-- A place further on is in a later row, or as many columns further in the same. -/
theorem Counts.further (hp : p.Counts before) (hq : q.Counts (before ++ cs)) :
    p.row.toNat < q.row.toNat ∨
      p.row.toNat = q.row.toNat ∧ q.column.toNat = p.column.toNat + cs.length := by
  rw [hp.row, hp.column, hq.row, hq.column, List.count_append, List.reverse_append]
  by_cases hn : '\n' ∈ cs
  · have hcount : 0 < cs.count '\n' := List.count_pos_iff.2 hn
    left
    omega
  · have hall : ∀ c ∈ cs.reverse, decide (c ≠ '\n') = true := by
      intro c hc
      rw [decide_eq_true_eq]
      rintro rfl
      exact hn (List.mem_reverse.1 hc)
    right
    rw [List.count_eq_zero_of_not_mem hn, List.takeWhile_append_of_pos hall, List.length_append,
      List.length_reverse]
    omega

theorem Counts.le (hp : p.Counts before) (hq : q.Counts (before ++ cs)) : p ≤ q := by
  show p.row < q.row ∨ p.row = q.row ∧ p.column ≤ q.column
  rw [UInt32.lt_iff_toNat_lt, UInt32.le_iff_toNat_le, ← UInt32.toNat_inj]
  have h := hp.further hq
  omega

theorem Counts.not_le (hp : p.Counts before) (hq : q.Counts (before ++ cs)) (hcs : cs ≠ []) :
    ¬q ≤ p := by
  show ¬(q.row < p.row ∨ q.row = p.row ∧ q.column ≤ p.column)
  rw [UInt32.lt_iff_toNat_lt, UInt32.le_iff_toNat_le, ← UInt32.toNat_inj]
  have h := hp.further hq
  have hlen := List.length_pos_iff.2 hcs
  omega

theorem Counts.lt (hp : p.Counts before) (hq : q.Counts (before ++ cs)) (hcs : cs ≠ []) : p < q :=
  lt_of_le_not_ge (hp.le hq) (hp.not_le hq hcs)

/-- A stretch ends before what follows it begins. -/
theorem Counts.last_lt_after (hp : p.Counts before) (hcs : cs ≠ [])
    (h : (before ++ cs).length < 4294967295) : p.last cs < p.after cs := by
  have hsplit : before ++ cs = before ++ cs.dropLast ++ [cs.getLast hcs] := by
    rw [List.append_assoc, List.dropLast_concat_getLast]
  exact (hp.last h).lt (hsplit ▸ hp.after h) (List.cons_ne_nil _ _)

end Position

end WhileLang
