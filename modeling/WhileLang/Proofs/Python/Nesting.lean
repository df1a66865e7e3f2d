import WhileLang.Proofs.Python.Emitted

/-!
# `WhileLang/Proofs/Python/Nesting.lean` — which lines belong to which loop

A line `while ...:` is followed by its **suite**: the lines that are indented further than it, up to
the first that is not. There must be at least one, and the lines of one suite that belong to no
suite inside it are all indented alike. `Python.outline?` reads lines by this rule, whatever else is
written on them.

The lines of a program are read back as the program is nested (`Program.outline?_pyRows`), if each
level is indented further than the one outside it. If all levels are indented alike, a line that
opens a suite has none (`Block.outline?_eq_none`), so then the lines can be read only where there is
no loop.
-/

set_option autoImplicit false

namespace WhileLang.Python

/-! ## Reading lines by their suites -/

/-- Lines in sequence, each with those after it. A loop has its suite apart. -/
inductive Outline where
  | done
  | line (tokens : List Token) (rest : Outline)
  | suite (head : List Token) (inner rest : Outline)
deriving DecidableEq, Repr

instance (w w' : Width) : Decidable (w.Lt w') :=
  inferInstanceAs (Decidable (_ ∧ _))

/-- Whether the line is indented further than `w`. -/
def Row.deeper (w : Width) (r : Row) : Bool := w.Lt r.width

/-- Whether the line is one that a suite follows. -/
def Row.opens (r : Row) : Bool :=
  r.tokens.head? = some (.keyword .while) && r.tokens.getLast? = some (.sign .colon)

/-- Reads lines of which those that belong to no suite are indented by `w`. -/
def outline? (w : Width) : List Row → Option Outline
  | [] => some .done
  | r :: rs =>
    if r.width ≠ w then none
    else if r.opens then
      match (rs.takeWhile (Row.deeper w)).head? with
      | none => none
      | some first => do
        let inner ← outline? first.width (rs.takeWhile (Row.deeper w))
        let rest ← outline? w (rs.dropWhile (Row.deeper w))
        return .suite r.tokens inner rest
    else (outline? w rs).map (.line r.tokens)
termination_by rs => rs.length
decreasing_by
  · exact Nat.lt_succ_of_le (List.takeWhile_sublist _).length_le
  · exact Nat.lt_succ_of_le (List.dropWhile_sublist _).length_le
  · exact Nat.lt_succ_self _

section

variable {w : Width} {line : List Token}

theorem outline?_nil : outline? w [] = some .done := by
  rw [outline?]

/-- A line that no suite follows. -/
theorem outline?_line (ho : Row.opens ⟨w, line⟩ = false) (rs : List Row) :
    outline? w (⟨w, line⟩ :: rs) = (outline? w rs).map (.line line) := by
  rw [outline?]
  simp [ho]

theorem outline?_singleton (ho : Row.opens ⟨w, line⟩ = false) :
    outline? w [⟨w, line⟩] = some (.line line .done) := by
  rw [outline?_line ho, outline?_nil]
  rfl

/-- A line and its suite, which ends where the lines go on no deeper. -/
theorem outline?_suite (ho : Row.opens ⟨w, line⟩ = true) {first : Row} {inner after : List Row}
    (hinner : ∀ r ∈ first :: inner, r.deeper w = true)
    (hafter : ∀ r ∈ after.head?, r.deeper w = false) :
    outline? w (⟨w, line⟩ :: (first :: inner ++ after)) = do
      let body ← outline? first.width (first :: inner)
      let rest ← outline? w after
      return .suite line body rest := by
  have htake : (first :: inner ++ after).takeWhile (Row.deeper w) = first :: inner := by
    rw [List.takeWhile_append_of_pos hinner]
    cases after with
    | nil => simp
    | cons r rs => simp [hafter r rfl]
  have hdrop : (first :: inner ++ after).dropWhile (Row.deeper w) = after := by
    rw [List.dropWhile_append_of_pos hinner]
    cases after with
    | nil => rfl
    | cons r rs => simp [hafter r rfl]
  rw [outline?, htake, hdrop]
  simp [ho]

/-- A line that a suite should follow, where there is none. -/
theorem outline?_eq_none (ho : Row.opens ⟨w, line⟩ = true) {rs : List Row}
    (hrs : ∀ r ∈ rs.head?, r.deeper w = false) : outline? w (⟨w, line⟩ :: rs) = none := by
  have htake : rs.takeWhile (Row.deeper w) = [] := by
    cases rs with
    | nil => rfl
    | cons r rs => simp [hrs r rfl]
  rw [outline?, htake]
  simp [ho]

end

/-! ## Widths of lines with depths -/

theorem Widens.lt {w : Nat → Width} (hw : Widens w) {d e : Nat} (h : d < e) : (w d).Lt (w e) := by
  induction e, h using Nat.le_induction with
  | base => exact hw d
  | succ e _ ih => exact ih.trans (hw e)

theorem Width.not_lt_self (w : Width) : ¬w.Lt w := fun h => Nat.lt_irrefl _ h.1

theorem Rows.atWidths_append (w : Nat → Width) (rs rs' : Rows) :
    Rows.atWidths w (rs ++ rs') = rs.atWidths w ++ rs'.atWidths w := List.map_append

theorem Rows.atWidths_cons (w : Nat → Width) (d : Nat) (line : List Token) (rs : Rows) :
    Rows.atWidths w ((d, line) :: rs) = ⟨w d, line⟩ :: rs.atWidths w := rfl

/-- Lines that go on at depth `d` are not deeper than a line at this depth. -/
theorem Rows.not_deeper_of_head {w : Nat → Width} {d : Nat} {rs : Rows}
    (h : ∀ r ∈ rs.head?, r.1 = d) : ∀ r ∈ (rs.atWidths w).head?, r.deeper (w d) = false := by
  cases rs with
  | nil => exact nofun
  | cons r rs =>
    intro _ hr
    obtain rfl := Option.some.inj hr
    show decide ((w d).Lt (w r.1)) = false
    rw [h r rfl]
    exact decide_eq_false (w d).not_lt_self

end WhileLang.Python

namespace WhileLang

open Python (Outline Rows Row)

/-! ## The outline of a program -/

/-- All loops in a block, those in loop bodies included, in source order. -/
def Block.loops : Block → List LoopHead
  | .done => []
  | .declare _ rest => rest.loops
  | .assign _ rest => rest.loops
  | .loop w body rest => w :: (body.loops ++ rest.loops)

/-- The line of a loop's condition. -/
def LoopHead.pyTokens (ann : Annotations) (w : LoopHead) : List Python.Token :=
  .keyword .while :: (w.cond.pyTokens ann ++ [.sign .colon])

/-- The nesting of a block that goes on with `after`. An empty body is `pass`. -/
def Block.outline (ann : Annotations) (after : Outline) : Block → Outline
  | .done => after
  | .declare d rest =>
    .line (.name (Target.varName d.symbol.name d.decl) :: .sign .assign :: d.init.pyTokens ann)
      (rest.outline ann after)
  | .assign a rest =>
    .line (.name (ann.targetName a.node.id a.symbol.name) :: .sign .assign :: a.value.pyTokens ann)
      (rest.outline ann after)
  | .loop w body rest =>
    .suite (w.pyTokens ann)
      (if body.isEmpty then .line [.keyword .pass] .done else body.outline ann .done)
      (rest.outline ann after)

/-- The nesting of a program: its statements, and the line that prints the result. -/
def Program.outline (ann : Annotations) (p : Program) : Outline :=
  p.body.outline ann
    (.line (pyPrintTokens (ann.tyOf p.result) (p.result.pyTokens ann)) .done)

/-! ## The lines of a program are read as its outline -/

theorem opens_while (w : Python.Width) (ann : Annotations) (head : LoopHead) :
    Row.opens ⟨w, head.pyTokens ann⟩ = true := by
  have htokens : head.pyTokens ann =
      (.keyword .while :: head.cond.pyTokens ann) ++ [.sign .colon] := rfl
  rw [Row.opens, htokens, List.getLast?_concat]
  rfl

/-- The lines of a loop's body. There is always one. -/
def Block.pySuite (ann : Annotations) (depth : Nat) (body : Block) : Rows :=
  (if body.isEmpty then [(depth, [.keyword .pass])] else []) ++ body.pyRows ann depth

namespace Block

variable {ann : Annotations} {w : Nat → Python.Width}

theorem pyRows_loop (head : LoopHead) (body rest : Block) (depth : Nat) :
    (Block.loop head body rest).pyRows ann depth = (depth, head.pyTokens ann) ::
      (body.pySuite ann (depth + 1) ++ rest.pyRows ann depth) := rfl

theorem le_of_mem_pyRows {b : Block} {depth : Nat} {r : Nat × List Python.Token}
    (h : r ∈ b.pyRows ann depth) : depth ≤ r.1 := by
  induction b generalizing depth with
  | done => simp [pyRows] at h
  | declare d rest ih =>
    rcases List.mem_cons.1 h with rfl | h
    · exact Nat.le_refl _
    · exact ih h
  | assign a rest ih =>
    rcases List.mem_cons.1 h with rfl | h
    · exact Nat.le_refl _
    · exact ih h
  | loop head body rest ihb ihr =>
    rw [pyRows_loop, List.mem_cons, List.mem_append, pySuite, List.mem_append] at h
    rcases h with rfl | (h | h) | h
    · exact Nat.le_refl _
    · split at h
      · rw [List.mem_singleton] at h
        exact h ▸ Nat.le_succ _
      · simp at h
    · exact Nat.le_of_succ_le (ihb h)
    · exact ihr h

/-- A block that is not empty begins with a line at its depth. -/
theorem head_pyRows (b : Block) {depth : Nat} {rest : Rows} (h : ∀ r ∈ rest.head?, r.1 = depth) :
    ∀ r ∈ (b.pyRows ann depth ++ rest).head?, r.1 = depth := by
  cases b with
  | done => exact h
  | declare | assign | loop =>
    intro _ hr
    obtain rfl := Option.some.inj hr
    rfl

/-- The lines of a body, the first of them, and that all are at least as deep. -/
theorem exists_pySuite (ann : Annotations) (body : Block) (depth : Nat) : ∃ line rs,
    body.pySuite ann depth = (depth, line) :: rs ∧ ∀ r ∈ body.pySuite ann depth, depth ≤ r.1 := by
  have hle : ∀ r ∈ body.pySuite ann depth, depth ≤ r.1 := by
    rw [pySuite, List.forall_mem_append]
    refine ⟨?_, fun r => le_of_mem_pyRows⟩
    split <;> simp
  cases body with
  | done | declare | assign | loop => exact ⟨_, _, rfl, hle⟩

/-- A loop is read as such if its body is deeper than it. -/
theorem outline?_loop (hw : Python.Widens w) (head : LoopHead) (body : Block) {depth : Nat}
    {rest : Rows} (hrest : ∀ r ∈ rest.head?, r.1 = depth) :
    Python.outline? (w depth)
        (Rows.atWidths w ((depth, head.pyTokens ann) :: (body.pySuite ann (depth + 1) ++ rest))) =
      do
        let inner ← Python.outline? (w (depth + 1)) ((body.pySuite ann (depth + 1)).atWidths w)
        let after ← Python.outline? (w depth) (rest.atWidths w)
        return .suite (head.pyTokens ann) inner after := by
  obtain ⟨line, rs, hsuite, hle⟩ := exists_pySuite ann body (depth + 1)
  have hdeeper : ∀ r ∈ (body.pySuite ann (depth + 1)).atWidths w,
      r.deeper (w depth) = true := by
    intro r hr
    obtain ⟨q, hq, rfl⟩ := List.mem_map.1 hr
    exact decide_eq_true (hw.lt (hle q hq))
  rw [hsuite, Rows.atWidths_cons] at hdeeper
  rw [hsuite, Rows.atWidths_cons, Rows.atWidths_append, Rows.atWidths_cons]
  exact Python.outline?_suite (opens_while ..) hdeeper (Rows.not_deeper_of_head hrest)

/-- **The lines of a block are read as its outline**, and then those after it. -/
theorem outline?_pyRows {b : Block} (hw : b.loops ≠ [] → Python.Widens w) {depth : Nat}
    {rest : Rows} (hrest : ∀ r ∈ rest.head?, r.1 = depth) :
    Python.outline? (w depth) (Rows.atWidths w (b.pyRows ann depth ++ rest)) =
      (Python.outline? (w depth) (rest.atWidths w)).map (b.outline ann ·) := by
  induction b generalizing depth rest with
  | done => simp [pyRows, outline]
  | declare d tail ih =>
    rw [pyRows, List.cons_append, Rows.atWidths_cons, Python.outline?_line rfl, ih hw hrest,
      Option.map_map]
    rfl
  | assign a tail ih =>
    rw [pyRows, List.cons_append, Rows.atWidths_cons, Python.outline?_line rfl, ih hw hrest,
      Option.map_map]
    rfl
  | loop head body tail ihb ihr =>
    have hw := hw (List.cons_ne_nil head _)
    have hsuite : Python.outline? (w (depth + 1)) ((body.pySuite ann (depth + 1)).atWidths w) =
        some (if body.isEmpty then .line [.keyword .pass] .done else body.outline ann .done) := by
      cases hempty : body.isEmpty with
      | true =>
        obtain rfl : body = .done := by cases body <;> simp [isEmpty] at hempty ⊢
        have hpass : Row.opens ⟨w (depth + 1), [.keyword .pass]⟩ = false := rfl
        exact Python.outline?_singleton hpass
      | false =>
        have hbody := @ihb (fun _ => hw) (depth + 1) [] (by simp)
        simpa [pySuite, hempty, Rows.atWidths, Python.outline?_nil] using hbody
    rw [pyRows_loop, List.cons_append, List.append_assoc,
      outline?_loop hw head body (head_pyRows tail hrest), hsuite, ihr (fun _ => hw) hrest]
    cases Python.outline? (w depth) (rest.atWidths w) <;> rfl

/-- **Lines that are all indented alike cannot be read if there is a loop.** -/
theorem outline?_eq_none {b : Block} (hw : ∀ d, w d = w 0) (hb : b.loops ≠ []) (depth : Nat)
    (rest : Rows) :
    Python.outline? (w 0) (Rows.atWidths w (b.pyRows ann depth ++ rest)) = none := by
  induction b generalizing depth with
  | done => exact absurd rfl hb
  | declare d tail ih =>
    rw [pyRows, List.cons_append, Rows.atWidths_cons, hw depth, Python.outline?_line rfl, ih hb]
    rfl
  | assign a tail ih =>
    rw [pyRows, List.cons_append, Rows.atWidths_cons, hw depth, Python.outline?_line rfl, ih hb]
    rfl
  | loop head body tail =>
    rw [pyRows_loop, List.cons_append, Rows.atWidths_cons, hw depth]
    refine Python.outline?_eq_none (opens_while ..) fun r hr => ?_
    obtain ⟨q, -, rfl⟩ := List.mem_map.1 (List.mem_of_mem_head? hr)
    rw [Row.deeper, hw q.1]
    exact decide_eq_false (w 0).not_lt_self

end Block

/-- **The lines of a program are read as its outline**, if each level is indented further than the
one outside it, or if there is only one. -/
theorem Program.outline?_pyRows {ann : Annotations} {w : Nat → Python.Width} {p : Program}
    (hw : p.body.loops ≠ [] → Python.Widens w) :
    Python.outline? (w 0) ((p.pyRows ann).atWidths w) = some (p.outline ann) := by
  rw [pyRows]
  generalize hprint : pyPrintTokens (ann.tyOf p.result) (p.result.pyTokens ann) = print
  have hopens : Row.opens ⟨w 0, print⟩ = false := by
    rw [← hprint]
    rfl
  have hlast : ∀ r ∈ List.head? [(0, print)], r.1 = 0 := by
    intro _ hr
    obtain rfl := Option.some.inj hr
    rfl
  rw [Block.outline?_pyRows hw hlast, Rows.atWidths_cons, outline, hprint]
  exact congrArg (Option.map _) (Python.outline?_singleton hopens)

/-! ## Indents of spaces -/

theorem Indent.toList_unit_spaces (n : Nat) :
    (spaces n).unit.toList = List.replicate n ' ' := by
  induction n with
  | zero => rfl
  | succ n ih =>
    have hpush : (spaces (n + 1)).unit = (spaces n).unit.push ' ' := rfl
    rw [hpush, String.toList_push, ih, List.replicate_succ']

theorem Indent.isBlank_of_mem_spaces (n : Nat) :
    ∀ c ∈ (spaces n).unit.toList, Python.isBlank c = true := by
  rw [toList_unit_spaces]
  intro c hc
  rw [List.eq_of_mem_replicate hc]
  rfl

theorem Indent.pyBlank_spaces {n : Nat} (h : 0 < n) : (spaces n).PyBlank := by
  refine ⟨?_, isBlank_of_mem_spaces n⟩
  rw [toList_unit_spaces, Ne, List.replicate_eq_nil_iff]
  exact h.ne'

/-- Without any blanks all levels are indented alike. -/
theorem Indent.pyWidth_spaces_zero (depth : Nat) : (spaces 0).pyWidth depth = .zero := by
  have hbefore : ((spaces 0).before depth).toList = [] := by
    induction depth with
    | zero => rfl
    | succ depth ih => rw [before, String.toList_append, ih, toList_unit_spaces]; rfl
  rw [pyWidth, hbefore]
  rfl

end WhileLang
