import WhileLang.Layout
import WhileLang.Proofs.Python.Text
import WhileLang.Proofs.Tree.Canonical

/-!
# `WhileLang/Proofs/Python/Layout.lean` — blocks by indentation

In Python the blanks before a line say which block it belongs to. How wide they are is counted with
a tab stop at every eighth column, and once more with every tab as one blank: **both must agree on
which line is indented further**, or the text is refused. The widths of the open blocks are kept on
a stack. A line that is indented further than the last one begins a block, and one that is indented
less ends blocks until its width is met, which must happen exactly. Lines without tokens do not
count.

An indent that is written once per level makes each level wider than the one outside it, so lines
that are written with their depths are read with their depths (`Lays`).
-/

set_option autoImplicit false

namespace WhileLang.Python

/-! ## Lines and their widths -/

/-- How far a line is indented. -/
structure Width where
  /-- With a tab stop at every eighth column. -/
  columns : Nat
  /-- With every tab as one blank. -/
  blanks : Nat
deriving DecidableEq, Repr

namespace Width

def zero : Width := ⟨0, 0⟩

/-- The width with one more blank. -/
def after (w : Width) (c : Char) : Width :=
  if c = '\t' then ⟨(w.columns / 8 + 1) * 8, w.blanks + 1⟩ else ⟨w.columns + 1, w.blanks + 1⟩

/-- The width of blanks that stand after others. -/
def extend (w : Width) (blanks : List Char) : Width :=
  blanks.foldl after w

/-- More by either count. -/
def Lt (w w' : Width) : Prop := w.columns < w'.columns ∧ w.blanks < w'.blanks

theorem Lt.trans {w w' w'' : Width} (h : w.Lt w') (h' : w'.Lt w'') : w.Lt w'' :=
  ⟨Nat.lt_trans h.1 h'.1, Nat.lt_trans h.2 h'.2⟩

theorem lt_after (w : Width) (c : Char) : w.Lt (w.after c) := by
  unfold after
  split
  · exact ⟨by simp only; omega, Nat.lt_succ_self _⟩
  · exact ⟨Nat.lt_succ_self _, Nat.lt_succ_self _⟩

theorem lt_extend (w : Width) {blanks : List Char} (h : blanks ≠ []) : w.Lt (w.extend blanks) := by
  induction blanks generalizing w with
  | nil => exact absurd rfl h
  | cons c cs ih =>
    by_cases hcs : cs = []
    · subst hcs
      exact w.lt_after c
    · exact (w.lt_after c).trans (ih (w.after c) hcs)

end Width

/-- A line: how far it is indented, and its tokens. -/
structure Row where
  width : Width
  tokens : List Token
deriving DecidableEq, Repr

def Row.ofLine? (line : List Char) : Option Row :=
  (Python.tokens line).map fun ts => ⟨Width.zero.extend (line.takeWhile isBlank), ts⟩

/-- The lines of a text that have tokens. -/
def rows (text : List Char) : Option (List Row) :=
  ((text.splitOn '\n').mapM Row.ofLine?).map fun rs => rs.filter fun r => r.tokens ≠ []

/-! ## Blocks -/

/-- Ends the blocks that are indented further than `w`, which must then be the width of a block. -/
def leave (w : Width) : List Width → Option (List Token × List Width)
  | [] => none
  | top :: stack =>
    if w.columns < top.columns then
      (leave w stack).map fun (ts, stack) => (.dedent :: ts, stack)
    else if w = top then some ([], top :: stack) else none

/-- Begins a block or ends some before a line of this width. -/
def enter (w : Width) : List Width → Option (List Token × List Width)
  | [] => none
  | top :: stack =>
    if top.columns < w.columns then
      if top.blanks < w.blanks then some ([.indent], w :: top :: stack) else none
    else leave w (top :: stack)

/-- The tokens of lines when blocks of these widths are open, the innermost first. At the end all
are ended but the outermost. -/
def layout : List Width → List Row → Option (List Token)
  | stack, [] => some (List.replicate (stack.length - 1) .dedent)
  | stack, r :: rs => do
    let (ts, stack) ← enter r.width stack
    let more ← layout stack rs
    return ts ++ r.tokens ++ .newline :: more

theorem layout_cons {stack stack' : List Width} {r : Row} {rs : List Row} {before more : List Token}
    (he : enter r.width stack = some (before, stack')) (hm : layout stack' rs = some more) :
    layout stack (r :: rs) = some (before ++ (r.tokens ++ .newline :: more)) := by
  rw [layout, he]
  simp [hm]

/-- The tokens of a text, with those for the ends of lines and for blocks. -/
def blockTokens (text : List Char) : Option (List Token) := do
  layout [.zero] (← rows text)

/-! ## Lines that are written with their depths -/

/-- The widths of the blocks around a line of depth `d`, from the inside out. -/
def enclosing (w : Nat → Width) : Nat → List Width
  | 0 => [w 0]
  | d + 1 => w (d + 1) :: enclosing w d

/-- Each level is indented further than the one outside it. -/
def Widens (w : Nat → Width) : Prop := ∀ d, (w d).Lt (w (d + 1))

section

variable {w : Nat → Width}

theorem exists_enclosing (w : Nat → Width) (d : Nat) : ∃ stack, enclosing w d = w d :: stack := by
  cases d <;> exact ⟨_, rfl⟩

theorem length_enclosing (w : Nat → Width) (d : Nat) : (enclosing w d).length = d + 1 := by
  induction d with
  | zero => rfl
  | succ d ih => rw [enclosing, List.length_cons, ih]

theorem columns_lt (hw : Widens w) (d k : Nat) :
    (w d).columns < (w (d + k + 1)).columns := by
  induction k with
  | zero => exact (hw d).1
  | succ k ih => exact Nat.lt_trans ih (hw (d + k + 1)).1

/-- All blocks are ended that are deeper than the line. -/
theorem leave_enclosing (hw : Widens w) (d k : Nat) :
    leave (w d) (enclosing w (d + k)) = some (List.replicate k .dedent, enclosing w d) := by
  induction k with
  | zero =>
    obtain ⟨stack, hstack⟩ := exists_enclosing w d
    rw [Nat.add_zero, hstack, leave, if_neg (Nat.lt_irrefl _), if_pos rfl]
    rfl
  | succ k ih =>
    rw [← Nat.add_assoc, enclosing, leave, if_pos (columns_lt hw d k), ih]
    rfl

theorem enter_enclosing (hw : Widens w) (d k : Nat) :
    enter (w d) (enclosing w (d + k)) = some (List.replicate k .dedent, enclosing w d) := by
  have hle : ¬(w (d + k)).columns < (w d).columns := by
    cases k with
    | zero => exact Nat.lt_irrefl _
    | succ k => exact Nat.not_lt_of_gt (columns_lt hw d k)
  obtain ⟨stack, hstack⟩ := exists_enclosing w (d + k)
  rw [hstack, enter, if_neg hle, ← hstack]
  exact leave_enclosing hw d k

/-- A line one level deeper begins a block. -/
theorem enter_deeper (hw : Widens w) (d : Nat) :
    enter (w (d + 1)) (enclosing w d) = some ([.indent], enclosing w (d + 1)) := by
  obtain ⟨stack, hstack⟩ := exists_enclosing w d
  rw [enclosing, hstack, enter, if_pos (hw d).1, if_pos (hw d).2]

/-- Lines with their depths. -/
abbrev Rows := List (Nat × List Token)

/-- The lines that have these depths when each depth has its width. -/
def Rows.atWidths (w : Nat → Width) (rs : Rows) : List Row :=
  rs.map fun r => ⟨w r.1, r.2⟩

/-- The lines go on at depth `d` with these tokens, after the ends of all blocks that are deeper. -/
def Lays (w : Nat → Width) (d : Nat) (rs : Rows) (ts : List Token) : Prop :=
  ∀ k, layout (enclosing w (d + k)) (Rows.atWidths w rs) = some (List.replicate k .dedent ++ ts)

namespace Lays

variable {d : Nat} {rs : Rows} {ts : List Token}

/-- The text ends at the outermost level. -/
theorem nil : Lays w 0 [] [] := by
  intro k
  simp [Rows.atWidths, layout, length_enclosing]

theorem layout_eq (h : Lays w d rs ts) :
    layout (enclosing w d) (Rows.atWidths w rs) = some ts := h 0

/-- What goes on further out ends the block. -/
theorem dedent (h : Lays w d rs ts) : Lays w (d + 1) rs (.dedent :: ts) := by
  intro k
  have hk := h (k + 1)
  rw [List.replicate_succ', List.append_assoc] at hk
  rw [Nat.add_right_comm]
  exact hk

/-- A line, and then more at its depth. -/
theorem row (hw : Widens w) (h : Lays w d rs ts) (line : List Token) :
    Lays w d ((d, line) :: rs) (line ++ .newline :: ts) := fun k =>
  layout_cons (r := ⟨w d, line⟩) (enter_enclosing hw d k) h.layout_eq

/-- A block begins where the next line is deeper. -/
theorem indent (hw : Widens w) {line : List Token}
    (h : Lays w (d + 1) ((d + 1, line) :: rs) ts) :
    layout (enclosing w d) (Rows.atWidths w ((d + 1, line) :: rs)) = some (.indent :: ts) := by
  have hts := h.layout_eq
  have hsame : enter (w (d + 1)) (enclosing w (d + 1)) = some ([], enclosing w (d + 1)) :=
    enter_enclosing hw (d + 1) 0
  -- after the line the open blocks are the same as if it stood in the block already
  obtain ⟨more, hmore⟩ : ∃ more, layout (enclosing w (d + 1)) (Rows.atWidths w rs) = some more := by
    cases hmore : layout (enclosing w (d + 1)) (Rows.atWidths w rs) with
    | some more => exact ⟨more, rfl⟩
    | none =>
      simp only [Rows.atWidths] at hmore hts
      simp [layout, hsame, hmore] at hts
  have hin := layout_cons (r := ⟨w (d + 1), line⟩) hsame hmore
  obtain rfl := Option.some.inj (hin.symm.trans hts)
  exact layout_cons (r := ⟨w (d + 1), line⟩) (enter_deeper hw d) hmore

/-- A line, and then a block. -/
theorem block (hw : Widens w) {first : List Token}
    (h : Lays w (d + 1) ((d + 1, first) :: rs) ts) (line : List Token) :
    Lays w d ((d, line) :: (d + 1, first) :: rs) (line ++ .newline :: .indent :: ts) := fun k =>
  layout_cons (r := ⟨w d, line⟩) (enter_enclosing hw d k) (h.indent hw)

end Lays

end

end WhileLang.Python

namespace WhileLang

/-! ## Lines as they are rendered -/

/-- The indent is made of blanks, and is not empty. -/
def Indent.PyBlank (indent : Indent) : Prop :=
  indent.unit.toList ≠ [] ∧ ∀ c ∈ indent.unit.toList, Python.isBlank c = true

theorem Indent.pyBlank_tab : Indent.tab.PyBlank :=
  ⟨by decide, List.all_eq_true.1 (by decide)⟩

/-- The width of what stands before a line of this depth. -/
def Indent.pyWidth (indent : Indent) (depth : Nat) : Python.Width :=
  Python.Width.zero.extend (indent.before depth).toList

theorem Indent.widens_pyWidth {indent : Indent} (h : indent.PyBlank) :
    Python.Widens indent.pyWidth := by
  intro depth
  have hsucc : indent.pyWidth (depth + 1) =
      (indent.pyWidth depth).extend indent.unit.toList := by
    rw [pyWidth, before, String.toList_append]
    exact List.foldl_append
  rw [hsucc]
  exact Python.Width.lt_extend _ h.1

/-- The line has this depth and these tokens, with nothing before the first of them. -/
structure Line.IsRow (line : Line) (r : Nat × List Python.Token) : Prop where
  depth_eq : line.depth = r.1
  reads : Python.Reads line.text.toList r.2
  starts : Boundary Python.isBlank line.text.toList
  ne_nil : r.2 ≠ []

namespace Python

variable {indent : Indent}

/-- A rendered line is read with the width of its depth. -/
theorem ofLine?_line (hi : ∀ c ∈ indent.unit.toList, isBlank c = true) {line : Line}
    {r : Nat × List Token} (h : line.IsRow r) :
    Row.ofLine? ((indent.before line.depth).toList ++ line.text.toList) =
      some ⟨indent.pyWidth r.1, r.2⟩ := by
  have hblank := Indent.forall_before hi line.depth
  have hreads : tokens ((indent.before line.depth).toList ++ line.text.toList) = some r.2 :=
    h.reads.blanks hblank
  have hbefore := takeWhile_append_of_boundary (fun _ => id) hblank h.starts
  rw [Row.ofLine?, hreads, hbefore, h.depth_eq]
  rfl

theorem rows_line (hi : ∀ c ∈ indent.unit.toList, isBlank c = true) {line : Line}
    {r : Nat × List Token} (h : line.IsRow r) {rest : List Char} {rs : List Row}
    (hrest : rows rest = some rs) :
    rows ((line.render indent).toList ++ rest) = some (⟨indent.pyWidth r.1, r.2⟩ :: rs) := by
  have hchars : (line.render indent).toList ++ rest =
      ((indent.before line.depth).toList ++ line.text.toList) ++ '\n' :: rest := by
    simp [Line.render]
  have hnewline : ∀ c ∈ (indent.before line.depth).toList ++ line.text.toList,
      (c == '\n') = false := by
    have hreads := h.reads.blanks (Indent.forall_before hi line.depth)
    intro c hc
    rw [beq_eq_false_iff_ne]
    rintro rfl
    exact hreads.newline_notMem hc
  obtain ⟨all, hall, rfl⟩ := Option.map_eq_some_iff.1 hrest
  rw [hchars, rows, List.splitOn,
    List.splitOnP_append_cons_of_forall_mem hnewline '\n' (beq_self_eq_true _) rest]
  rw [List.splitOn] at hall
  simp [List.mapM_cons, ofLine?_line hi h, hall, h.ne_nil]

/-- **Lines are read with their depths**, whatever blanks the indent is made of. -/
theorem rows_chars (hi : ∀ c ∈ indent.unit.toList, isBlank c = true) {lines : List Line}
    {rs : Rows} (h : List.Forall₂ Line.IsRow lines rs) :
    rows (Line.chars indent lines) = some (rs.atWidths indent.pyWidth) := by
  induction h with
  | nil => rfl
  | cons hline _ ih =>
    rw [Line.chars, List.flatMap_cons]
    exact rows_line hi hline ih

/-- The tokens of lines that begin at the outermost level. -/
theorem blockTokens_of_rows {text : List Char} {rs : Rows} {ts : List Token}
    (h : rows text = some (rs.atWidths indent.pyWidth)) (hl : Lays indent.pyWidth 0 rs ts) :
    blockTokens text = some ts := by
  rw [blockTokens, h]
  exact hl.layout_eq

end Python

end WhileLang
