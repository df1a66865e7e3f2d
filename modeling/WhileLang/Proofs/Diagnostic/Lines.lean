import WhileLang.Diagnostic.Log
import WhileLang.Proofs.Token.Boundary

/-!
# `WhileLang/Proofs/Diagnostic/Lines.lean` — a line for each record, and the record from its line

A diagnostic and each of its notes is a **record**: two places, a severity and a message. The text
of a log has one line for each record (`Log.split_render`), if neither the file names nor the
messages break lines; and for one file **the line says what the record is**
(`Record.line_injective`), whatever the message.

The numbers in a line are told apart by what follows them. The place where a span ends is left out
or cut short in two of the three forms of a span; which form it is shows in a dash after the first
place and in a digit after the second colon.
-/

set_option autoImplicit false

namespace WhileLang

/-- What one line of output tells. -/
structure Record where
  first : Position
  last : Position
  severity : Severity
  message : String
deriving DecidableEq, Repr

/-- The line for a record, in a file of this name. -/
def Record.line (name : String) (r : Record) : String :=
  Diagnostic.line (.ofList [name]) ⟨⟨0⟩, r.first, r.last⟩ r.severity r.message

/-- The records of a diagnostic: its own, then one for each note. -/
def Diagnostic.records (d : Diagnostic) : List Record :=
  ⟨d.span.first, d.span.last, d.severity, d.message⟩ ::
    d.notes.map fun n => ⟨n.span.first, n.span.last, .note, n.message⟩

def Log.records (log : Log) : List Record :=
  log.toList.flatMap Diagnostic.records

/-! ## Numbers and places -/

/-- A number is told from the text that begins with it, if no digit follows. -/
theorem digits_append_inj {m n : UInt32} {x y : List Char} (hx : Boundary Char.isDigit x)
    (hy : Boundary Char.isDigit y)
    (h : Nat.toDigits 10 m.toNat ++ x = Nat.toDigits 10 n.toNat ++ y) : m = n ∧ x = y := by
  have hrun (k : UInt32) {z : List Char} (hz : Boundary Char.isDigit z) :
      (Nat.toDigits 10 k.toNat ++ z).takeWhile Char.isDigit = Nat.toDigits 10 k.toNat :=
    takeWhile_append_of_boundary (fun _ => id)
      (fun _ => Nat.isDigit_of_mem_toDigits (by decide) (by decide)) hz
  have hdigits : Nat.toDigits 10 m.toNat = Nat.toDigits 10 n.toNat := by
    rw [← hrun m hx, h, hrun n hy]
  have hvalue := congrArg (Nat.ofDigitChars 10 · 0) hdigits
  simp only [Nat.ofDigitChars_ten_toDigits] at hvalue
  rw [hdigits] at h
  exact ⟨UInt32.toNat_inj.1 hvalue, List.append_cancel_left h⟩

theorem Position.toList_text_append (p : Position) (x : List Char) :
    p.text.toList ++ x =
      Nat.toDigits 10 p.row.toNat ++ ':' :: (Nat.toDigits 10 p.column.toNat ++ x) := by
  simp [text]

theorem Position.eq_of_row_of_column {p q : Position} (hrow : p.row = q.row)
    (hcolumn : p.column = q.column) : p = q := by
  cases p
  cases q
  rw [Position.mk.injEq]
  exact ⟨hrow, hcolumn⟩

theorem Position.text_append_inj {p q : Position} {x y : List Char}
    (hx : Boundary Char.isDigit x) (hy : Boundary Char.isDigit y)
    (h : p.text.toList ++ x = q.text.toList ++ y) : p = q ∧ x = y := by
  rw [toList_text_append, toList_text_append] at h
  have hcolon (z : List Char) : Boundary Char.isDigit (':' :: z) := .cons (by decide) z
  obtain ⟨hrow, h⟩ := digits_append_inj (hcolon _) (hcolon _) h
  obtain ⟨hcolumn, hrest⟩ := digits_append_inj hx hy (List.cons.inj h).2
  exact ⟨eq_of_row_of_column hrow hcolumn, hrest⟩

/-! ## Lines -/

/-- What is written of the last place, behind the first. -/
def ending (first last : Position) : List Char :=
  if first = last then []
  else if first.row = last.row then '-' :: Nat.toDigits 10 last.column.toNat
  else '-' :: last.text.toList

theorem toList_render (files : FileTable) (s : Span) :
    (s.render files).toList =
      (files.name s.file).toList ++ ':' :: (s.first.text.toList ++ ending s.first s.last) := by
  unfold Span.render ending
  split
  · simp
  · split <;> simp

theorem boundary_ending (first last : Position) (x : List Char) :
    Boundary Char.isDigit (ending first last ++ ':' :: x) := by
  unfold ending
  split
  · exact .cons (by decide) _
  · split <;> exact .cons (by decide) _

/-- One number is not two: behind its colon there is a blank and no digit. -/
theorem digits_ne_text (n : UInt32) (p : Position) (x y : List Char) :
    Nat.toDigits 10 n.toNat ++ ':' :: ' ' :: x ≠ p.text.toList ++ y := by
  intro h
  rw [p.toList_text_append] at h
  have hcolon (z : List Char) : Boundary Char.isDigit (':' :: z) := .cons (by decide) z
  obtain ⟨-, h⟩ := digits_append_inj (hcolon _) (hcolon _) h
  obtain ⟨c, more, hdigits, hall⟩ := exists_toDigits_eq_cons p.column.toNat
  rw [hdigits] at h
  obtain ⟨rfl, -⟩ := List.cons.inj (List.cons.inj h).2
  exact absurd (hall ' ' (List.mem_cons_self ..)) (by decide)

/-- A dash stands behind the first place unless it is the last, and a digit behind the next colon
unless the rows are the same. -/
theorem ending_append_inj {first last last' : Position} {x y : List Char}
    (h : ending first last ++ ':' :: ' ' :: x = ending first last' ++ ':' :: ' ' :: y) :
    last = last' ∧ x = y := by
  have hcolon (z : List Char) : Boundary Char.isDigit (':' :: z) := .cons (by decide) z
  by_cases hpoint : first = last
  · by_cases hpoint' : first = last'
    · rw [ending, ending, if_pos hpoint, if_pos hpoint'] at h
      exact ⟨hpoint.symm.trans hpoint', (List.cons.inj (List.cons.inj h).2).2⟩
    · rw [ending, ending, if_pos hpoint, if_neg hpoint'] at h
      split at h <;> cases (List.cons.inj h).1
  by_cases hpoint' : first = last'
  · rw [ending, ending, if_neg hpoint, if_pos hpoint'] at h
    split at h <;> cases (List.cons.inj h).1
  rw [ending, ending, if_neg hpoint, if_neg hpoint'] at h
  by_cases hrow : first.row = last.row
  · by_cases hrow' : first.row = last'.row
    · rw [if_pos hrow, if_pos hrow'] at h
      obtain ⟨hcolumn, h⟩ := digits_append_inj (hcolon _) (hcolon _) (List.cons.inj h).2
      exact ⟨Position.eq_of_row_of_column (hrow.symm.trans hrow') hcolumn,
        (List.cons.inj (List.cons.inj h).2).2⟩
    · rw [if_pos hrow, if_neg hrow'] at h
      exact (digits_ne_text _ _ _ _ (List.cons.inj h).2).elim
  · by_cases hrow' : first.row = last'.row
    · rw [if_neg hrow, if_pos hrow'] at h
      exact (digits_ne_text _ _ _ _ (List.cons.inj h).2.symm).elim
    · rw [if_neg hrow, if_neg hrow'] at h
      obtain ⟨hlast, h⟩ := Position.text_append_inj (hcolon _) (hcolon _) (List.cons.inj h).2
      exact ⟨hlast, (List.cons.inj (List.cons.inj h).2).2⟩

theorem Record.toList_line (name : String) (r : Record) :
    (r.line name).toList = name.toList ++ ':' :: (r.first.text.toList ++
      (ending r.first r.last ++ ':' :: ' ' ::
        (r.severity.text.toList ++ ':' :: ' ' :: r.message.toList))) := by
  have hname : (FileTable.ofList [name]).name ⟨0⟩ = name := rfl
  simp [line, Diagnostic.line, toList_render, hname]

theorem Severity.text_append_inj {s t : Severity} {x y : List Char}
    (h : s.text.toList ++ ':' :: x = t.text.toList ++ ':' :: y) : s = t ∧ x = y := by
  cases s with
  | error =>
    cases t with
    | error => exact ⟨rfl, by simpa [text] using h⟩
    | note => cases (List.cons.inj h).1
  | note =>
    cases t with
    | error => cases (List.cons.inj h).1
    | note => exact ⟨rfl, by simpa [text] using h⟩

/-- **In one file, the line says what the record is.** -/
theorem Record.line_injective (name : String) : Function.Injective (Record.line name) := by
  intro r r' h
  have hlist := congrArg String.toList h
  rw [toList_line, toList_line] at hlist
  have hplaces := (List.cons.inj (List.append_cancel_left hlist)).2
  obtain ⟨hfirst, hrest⟩ :=
    Position.text_append_inj (boundary_ending _ _ _) (boundary_ending _ _ _) hplaces
  rw [← hfirst] at hrest
  obtain ⟨hlast, hsaid⟩ := ending_append_inj hrest
  obtain ⟨hseverity, hmessage⟩ := Severity.text_append_inj hsaid
  cases r
  cases r'
  rw [Record.mk.injEq]
  exact ⟨hfirst, hlast, hseverity, String.toList_inj.1 (List.cons.inj hmessage).2⟩

/-! ## The text of a log -/

/-- The text has no line break. -/
def OneLine (text : String) : Prop := '\n' ∉ text.toList

instance (text : String) : Decidable (OneLine text) :=
  inferInstanceAs (Decidable (_ ∉ _))

theorem oneLine_append {s t : String} : OneLine (s ++ t) ↔ OneLine s ∧ OneLine t := by
  simp [OneLine]

/-- A diagnostic about this file, whose messages have no line breaks. -/
structure Diagnostic.InFile (f : FileId) (d : Diagnostic) : Prop where
  span : d.span.file = f
  message : OneLine d.message
  notes : ∀ n ∈ d.notes, n.span.file = f ∧ OneLine n.message

theorem Diagnostic.inFile_error {f : FileId} (kind : DiagnosticKind) {span : Span}
    {message : String} (hspan : span.file = f) (hmessage : OneLine message) :
    (error kind span message).InFile f :=
  ⟨hspan, hmessage, List.forall_mem_nil _⟩

theorem Diagnostic.InFile.withNote {f : FileId} {d : Diagnostic} (h : d.InFile f) {span : Span}
    {message : String} (hspan : span.file = f) (hmessage : OneLine message) :
    (d.withNote span message).InFile f where
  span := h.span
  message := h.message
  notes := by
    rw [Diagnostic.withNote, List.forall_mem_append, List.forall_mem_singleton]
    exact ⟨h.notes, hspan, hmessage⟩

/-- Lines with newlines between them, group by group, are all the lines with newlines between. -/
theorem intercalate_intercalate {groups : List (List String)} (h : ∀ g ∈ groups, g ≠ [])
    (s : String) : s.intercalate (groups.map s.intercalate) = s.intercalate groups.flatten := by
  induction groups with
  | nil => rfl
  | cons g groups ih =>
    obtain ⟨hg, hgroups⟩ := List.forall_mem_cons.1 h
    have ih := ih hgroups
    cases groups with
    | nil => simp
    | cons g' groups =>
      have hne : (g' :: groups).flatten ≠ [] := by
        rw [List.flatten_cons]
        exact List.append_ne_nil_of_left_ne_nil (hgroups g' (List.mem_cons_self ..)) _
      have hmap : (g' :: groups).map s.intercalate ≠ [] := List.cons_ne_nil _ _
      rw [List.map_cons, List.flatten_cons, String.intercalate_append_of_ne_nil hg hne, ← ih,
        String.intercalate_cons_of_ne_nil hmap]

theorem Diagnostic.line_eq (files : FileTable) (span : Span) (severity : Severity)
    (message : String) : line files span severity message =
      Record.line (files.name span.file) ⟨span.first, span.last, severity, message⟩ := rfl

theorem Diagnostic.InFile.lines {f : FileId} {d : Diagnostic} (h : d.InFile f)
    (files : FileTable) : d.lines files = d.records.map (Record.line (files.name f)) := by
  rw [Diagnostic.lines, records, List.map_cons, List.map_map, Diagnostic.line_eq, h.span]
  refine congrArg (_ :: ·) (List.map_congr_left fun n hn => ?_)
  rw [Diagnostic.line_eq, (h.notes n hn).1]
  rfl

theorem newline_notMem_digits (n : Nat) : '\n' ∉ Nat.toDigits 10 n := by
  intro h
  cases Nat.isDigit_of_mem_toDigits (by decide) (by decide) h

theorem Position.oneLine_text (p : Position) : OneLine p.text := by
  have h := p.toList_text_append []
  rw [List.append_nil] at h
  rw [OneLine, h]
  simp [newline_notMem_digits]

theorem newline_notMem_ending (first last : Position) : '\n' ∉ ending first last := by
  have hlast : '\n' ∉ last.text.toList := last.oneLine_text
  unfold ending
  split
  · exact List.not_mem_nil
  · split
    · simp [newline_notMem_digits]
    · simp [hlast]

theorem Record.oneLine_line {name : String} (hname : OneLine name) {r : Record}
    (hr : OneLine r.message) : OneLine (r.line name) := by
  have hseverity : '\n' ∉ r.severity.text.toList := by cases r.severity <;> decide
  have hfirst : '\n' ∉ r.first.text.toList := r.first.oneLine_text
  rw [OneLine] at hname hr
  rw [OneLine, toList_line]
  simp [hname, hr, hseverity, hfirst, newline_notMem_ending]

theorem Diagnostic.InFile.oneLine {f : FileId} {d : Diagnostic} (h : d.InFile f) :
    ∀ r ∈ d.records, OneLine r.message := by
  rw [records, List.forall_mem_cons, List.forall_mem_map]
  exact ⟨h.message, fun n hn => (h.notes n hn).2⟩

/-- The lines of the diagnostics one after the other are those of the records. -/
theorem Log.render_eq {log : Log} {f : FileId} (h : ∀ d ∈ log.toList, d.InFile f)
    (files : FileTable) : log.render files =
      "\n".intercalate (log.records.map (Record.line (files.name f))) := by
  have hgroups : ∀ g ∈ log.toList.map (·.lines files), g ≠ [] := by
    rw [List.forall_mem_map]
    exact fun d _ => List.cons_ne_nil _ _
  have hrender := intercalate_intercalate hgroups "\n"
  rw [List.map_map] at hrender
  refine hrender.trans (congrArg "\n".intercalate ?_)
  rw [records, List.map_flatMap, List.flatMap]
  exact congrArg List.flatten (List.map_congr_left fun d hd => (h d hd).lines files)

/-- **The text of a log has one line for each record**, in their order. -/
theorem Log.split_render {log : Log} {files : FileTable} {f : FileId}
    (hname : OneLine (files.name f)) (h : ∀ d ∈ log.toList, d.InFile f) (hne : log.toList ≠ []) :
    ((log.render files).split '\n').toStringList =
      log.records.map (Record.line (files.name f)) := by
  have honeline : ∀ l ∈ log.records.map (Record.line (files.name f)), '\n' ∉ l.toList := by
    rw [List.forall_mem_map]
    intro r hr
    obtain ⟨d, hd, hr⟩ := List.mem_flatMap.1 hr
    exact Record.oneLine_line hname ((h d hd).oneLine r hr)
  have hsplit := String.toList_split_intercalate honeline
  have hnil : log.records.map (Record.line (files.name f)) ≠ [] := by
    obtain ⟨d, ds, hds⟩ := List.exists_cons_of_ne_nil hne
    simp [records, hds, Diagnostic.records]
  rw [if_neg hnil] at hsplit
  rw [Log.render_eq h files]
  refine Eq.trans ?_ hsplit
  simp only [Std.Iter.toStringList, Std.Iter.toList_map]
  rfl

end WhileLang
