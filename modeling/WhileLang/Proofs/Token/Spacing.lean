import WhileLang.Proofs.Token.Reading

/-!
# `WhileLang/Proofs/Token/Spacing.lean` — blanks between pieces

A piece ends where its first character no longer reaches, so a text falls apart at the end of a
piece whatever comes after it, as long as that does not make the piece longer
(`Seam.exists_pieces_append`). A blank makes none longer. **Blanks put where no token is torn apart
only add pieces for themselves** (`exists_pieces_insert`): the pieces before and after them are
those that were there, names, numbers, operators and stray characters alike.
-/

set_option autoImplicit false

namespace WhileLang

/-- Between the two parts there is no token: every token of the text ends before the second part
begins, or begins where that does or later. -/
def Seam (x y : List Char) : Prop :=
  ∀ before spelling l after, pieces (x ++ y) = before ++ .token spelling l :: after →
    (before.flatMap Piece.text).length + spelling.length ≤ x.length ∨
      x.length ≤ (before.flatMap Piece.text).length

/-- A text that makes no piece before it longer: it begins with no letter, digit or `=`. -/
def Unreached (z : List Char) : Prop :=
  Boundary (fun c => c.isAlphanum || c = '=') z

/-! ## What a character reaches -/

theorem Unreached.boundary {z : List Char} (hz : Unreached z) {p : Char → Bool}
    (hp : ∀ d, p d = true → d.isAlphanum = true ∨ d = '=') : Boundary p z := by
  intro d hd
  have hno := hz d hd
  rw [Bool.or_eq_false_iff, decide_eq_false_iff_not] at hno
  rw [Bool.eq_false_iff]
  intro h
  rcases hp d h with h | h
  · rw [hno.1] at h
    cases h
  · exact hno.2 h

theorem isAlphanum_eq_false_of_isBlank {d : Char} (h : isBlank d = true) :
    d.isAlphanum = false := by
  rw [Bool.eq_false_iff]
  intro ha
  rw [isBlank_eq_false_of_isAlphanum ha] at h
  cases h

theorem Unreached.of_isBlank {c : Char} (h : isBlank c = true) (z : List Char) :
    Unreached (c :: z) := by
  refine .cons ?_ z
  rw [isAlphanum_eq_false_of_isBlank h, Bool.false_or, decide_eq_false_iff_not]
  rintro rfl
  cases h

theorem Boundary.takeWhile_eq_nil {p : Char → Bool} {z : List Char} (hz : Boundary p z) :
    z.takeWhile p = [] :=
  takeWhile_append_of_boundary (fun _ => id) (List.forall_mem_nil _) hz

theorem takeWhile_append_of_length_le {p : Char → Bool} {x y z : List Char}
    (h : ((x ++ y).takeWhile p).length ≤ x.length) (hz : Boundary p z) :
    (x ++ z).takeWhile p = (x ++ y).takeWhile p := by
  rw [List.takeWhile_append] at h ⊢
  rw [List.takeWhile_append]
  by_cases hx : (x.takeWhile p).length = x.length
  · rw [if_pos hx, List.length_append] at h
    have hy : y.takeWhile p = [] := List.eq_nil_of_length_eq_zero (by omega)
    rw [if_pos hx, if_pos hx, hy, hz.takeWhile_eq_nil]
  · rw [if_neg hx, if_neg hx]

/-- A character reaches a run of letters and digits, or of some of them, or one equals sign, or
nothing. -/
theorem reach_cases (c : Char) :
    (∃ p : Char → Bool, (∀ d, p d = true → d.isAlphanum = true) ∧
      ∀ rest, reach c rest = rest.takeWhile p) ∨
    (∀ rest, reach c rest = (rest.take 1).takeWhile (· = '=')) ∨ ∀ rest, reach c rest = [] := by
  unfold reach
  by_cases ha : c.isAlpha = true
  · left
    exact ⟨_, fun _ => id, fun rest => if_pos ha⟩
  · simp only [if_neg ha]
    by_cases hd : c.isDigit = true
    · left
      exact ⟨_, fun d h => by simp [Char.isAlphanum, h], fun rest => if_pos hd⟩
    · simp only [if_neg hd]
      right
      by_cases hw : widens c = true
      · left
        intro rest
        rw [if_pos hw]
      · right
        intro rest
        rw [if_neg hw]

/-- What is reached within the first part is reached whatever stands behind that, if it makes no
piece longer. -/
theorem reach_append {c : Char} {x y z : List Char} (h : (reach c (x ++ y)).length ≤ x.length)
    (hz : Unreached z) : reach c (x ++ z) = reach c (x ++ y) := by
  rcases reach_cases c with ⟨p, hp, hr⟩ | hr | hr
  · rw [hr] at h
    rw [hr, hr]
    exact takeWhile_append_of_length_le h (hz.boundary fun d hd => .inl (hp d hd))
  · rw [hr] at h
    rw [hr, hr]
    cases x with
    | nil =>
      have hsign : Boundary (· = '=') (z.take 1) := by
        intro d hd
        rw [List.head?_take, if_neg Nat.one_ne_zero] at hd
        exact hz.boundary (fun d hd => .inr (of_decide_eq_true hd)) d hd
      rw [List.nil_append] at h ⊢
      rw [List.nil_append, List.eq_nil_of_length_eq_zero (Nat.le_zero.1 h),
        hsign.takeWhile_eq_nil]
    | cons d x => rfl
  · rw [hr, hr]

/-! ## Pieces -/

theorem pieces_blanks {w : List Char} (hw : ∀ c ∈ w, isBlank c = true) (y : List Char) :
    pieces (w ++ y) = w.map .blank ++ pieces y := by
  induction w with
  | nil => rfl
  | cons c w ih =>
    have hc := hw c (List.mem_cons_self ..)
    rw [List.cons_append, pieces_cons, reach_of_isBlank hc, Piece.ofText, if_pos hc,
      List.length_nil, List.drop_zero, ih fun d hd => hw d (List.mem_cons_of_mem _ hd)]
    rfl

/-- Where a piece ends there is a seam. -/
theorem Seam.of_pieces {x y : List Char} {ps qs : List Piece} (h : pieces (x ++ y) = ps ++ qs)
    (hx : ps.flatMap Piece.text = x) : Seam x y := by
  intro before spelling l after heq
  rw [h] at heq
  subst hx
  rcases List.append_eq_append_iff.1 heq with ⟨more, rfl, -⟩ | ⟨more, rfl, hmore⟩
  · -- the token is one of the second part
    right
    rw [List.flatMap_append, List.length_append]
    exact Nat.le_add_right ..
  · cases more with
    | nil =>
      right
      rw [List.append_nil]
    | cons p more =>
      -- the token is one of the first part
      obtain ⟨rfl, -⟩ := List.cons.inj hmore
      left
      rw [List.flatMap_append, List.flatMap_cons, List.length_append, List.length_append]
      exact Nat.add_le_add_left (Nat.le_add_right ..) _

/-- The first piece of a text ends in the first part, if there is no token across the seam. -/
theorem Seam.length_reach_le {c : Char} {x y : List Char} (h : Seam (c :: x) y) :
    (reach c (x ++ y)).length ≤ x.length := by
  have htext := Piece.text_ofText_reach c (x ++ y)
  cases hp : Piece.ofText c (reach c (x ++ y)) with
  | blank d | stray d =>
    -- these are one character, so nothing is reached
    rw [hp] at htext
    rw [← (List.cons.inj htext).2]
    exact Nat.zero_le _
  | token spelling l =>
    rw [hp] at htext
    obtain rfl : spelling = c :: reach c (x ++ y) := htext
    have hsplit : pieces (c :: x ++ y) = [] ++ .token (c :: reach c (x ++ y)) l ::
        pieces ((x ++ y).drop (reach c (x ++ y)).length) := by
      rw [List.cons_append, pieces_cons, hp, List.nil_append]
    rcases h _ _ _ _ hsplit with hle | hle
    · simpa using hle
    · simp at hle

/-- After the first piece the seam is still where no token is. -/
theorem Seam.drop {c : Char} {x y : List Char} (h : Seam (c :: x) y) :
    Seam (x.drop (reach c (x ++ y)).length) y := by
  have hle := h.length_reach_le
  intro before spelling l after heq
  have hsplit : pieces (c :: x ++ y) =
      (Piece.ofText c (reach c (x ++ y)) :: before) ++ .token spelling l :: after := by
    rw [List.cons_append, pieces_cons, List.drop_append_of_le_length hle, heq, List.cons_append]
  have hpos := h _ _ _ _ hsplit
  rw [List.flatMap_cons, Piece.text_ofText_reach, List.length_append, List.length_cons,
    List.length_cons] at hpos
  rw [List.length_drop]
  omega

/-- The first part of a text falls into the same pieces before anything that makes none longer. -/
theorem Seam.exists_pieces_append {x y : List Char} (h : Seam x y) :
    ∃ ps, pieces (x ++ y) = ps ++ pieces y ∧
      ∀ z, Unreached z → pieces (x ++ z) = ps ++ pieces z := by
  induction hn : x.length using Nat.strongRecOn generalizing x with
  | _ n ih =>
    cases x with
    | nil => exact ⟨[], rfl, fun z _ => rfl⟩
    | cons c x =>
      have hle := h.length_reach_le
      obtain ⟨ps, hxy, hxz⟩ := ih _ (by simp at hn ⊢; omega) h.drop rfl
      refine ⟨Piece.ofText c (reach c (x ++ y)) :: ps, ?_, fun z hz => ?_⟩
      · rw [List.cons_append, pieces_cons, List.drop_append_of_le_length hle, hxy,
          List.cons_append]
      · rw [List.cons_append, pieces_cons, reach_append hle hz,
          List.drop_append_of_le_length hle, hxz z hz, List.cons_append]

/-- **Blanks at a seam add themselves and nothing else.** -/
theorem exists_pieces_insert {x y w : List Char} (h : Seam x y) (hne : w ≠ [])
    (hw : ∀ c ∈ w, isBlank c = true) : ∃ ps qs, pieces (x ++ y) = ps ++ qs ∧
      pieces (x ++ (w ++ y)) = ps ++ w.map .blank ++ qs := by
  have hunreached : Unreached (w ++ y) := by
    cases w with
    | nil => exact absurd rfl hne
    | cons c w => exact .of_isBlank (hw c (List.mem_cons_self ..)) _
  obtain ⟨ps, hxy, hxz⟩ := h.exists_pieces_append
  refine ⟨ps, pieces y, hxy, ?_⟩
  rw [hxz _ hunreached, pieces_blanks hw, List.append_assoc]

end WhileLang
