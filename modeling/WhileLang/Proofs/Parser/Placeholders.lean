import Mathlib.Data.List.Chain
import WhileLang.Proofs.Parser.Accepts
import WhileLang.Proofs.Parser.Origin
import WhileLang.Proofs.Parser.Readback
import WhileLang.Proofs.Token.Spacing

/-!
# `WhileLang/Proofs/Parser/Placeholders.lean` — a placeholder is never read as something else

A placeholder is printed as `<error>`, and this has no stray character: it reads as a `<`, a name
and a `>`, which may well stand in a program. What gives it away is **the lexeme before the `<`**.
In the language a `<` stands directly behind the end of an operand (`IsProgram.compares`); the
printer writes a placeholder only where an operand or a name begins, directly behind a mark that
ends none.

Nothing is assumed of the rest of the tree or of its names, so the text around the placeholder may
read as anything. Only the places where the text falls apart are needed: before a character that no
token goes on with, and behind a blank.
-/

set_option autoImplicit false

namespace WhileLang

/-! ## Where the language has a `<` -/

/-- The lexemes that an operand can end in. -/
def Lexeme.endsOperand : Lexeme → Bool
  | .name _ | .literal _ => true
  | .mark m => m ∈ [.true, .false, .parenR]

/-- Every `<` stands directly behind the end of an operand, so it is not the first lexeme. -/
def Compares (ls : List Lexeme) : Prop :=
  (.mark .semicolon :: ls).IsChain fun l l' => l' = .mark .lt → l.endsOperand = true

namespace Compares

variable {ls rs : List Lexeme}

theorem nil : Compares [] := .singleton _

theorem singleton {l : Lexeme} (h : l ≠ .mark .lt) : Compares [l] :=
  .cons_cons (fun hl => absurd hl h) (.singleton l)

theorem head_ne (h : Compares ls) : ∀ l ∈ ls.head?, l ≠ .mark .lt := by
  intro l hl heq
  cases (List.isChain_cons.1 h).1 l hl heq

theorem append (h : Compares ls) (h' : Compares rs) : Compares (ls ++ rs) := by
  refine List.IsChain.append h (List.isChain_cons.1 h').2 fun l _ l' hl' heq => ?_
  exact absurd heq (h'.head_ne l' hl')

theorem cons {l : Lexeme} (hl : l ≠ .mark .lt) (h : Compares ls) : Compares (l :: ls) :=
  (singleton hl).append h

/-- Behind the end of an operand any lexeme may come. -/
theorem concat {l : Lexeme} (h : Compares (ls ++ [l])) (hl : l.endsOperand = .true) (l' : Lexeme) :
    Compares (ls ++ [l] ++ [l']) := by
  refine List.IsChain.append h (.singleton l') fun k hk _ _ _ => ?_
  rw [← List.cons_append, List.getLast?_concat] at hk
  obtain rfl := Option.some.inj hk
  exact hl

theorem of_append (h : Compares (ls ++ rs)) : Compares ls := by
  rw [Compares, ← List.cons_append, List.isChain_append] at h
  exact h.1

theorem endsOperand {l : Lexeme} (h : Compares (ls ++ l :: .mark .lt :: rs)) :
    l.endsOperand = .true := by
  rw [Compares, ← List.cons_append, List.isChain_append_cons_cons] at h
  exact h.2.1 rfl

end Compares

theorem UnaryOp.mark_ne_lt (op : UnaryOp) : Lexeme.mark op.mark ≠ .mark .lt := by
  cases op <;> simp [UnaryOp.mark]

theorem IsExpr.compares {ls : List Lexeme} (h : IsExpr ls) :
    ∃ init last, ls = init ++ [last] ∧ last.endsOperand = .true ∧ Compares ls := by
  induction h with
  | true | false => exact ⟨[], _, rfl, rfl, .singleton (by simp)⟩
  | name x => exact ⟨[], _, rfl, rfl, .singleton (by simp)⟩
  | literal v => exact ⟨[], _, rfl, rfl, .singleton (by simp)⟩
  | @parenthesis ls _ ih =>
    obtain ⟨-, -, -, -, h⟩ := ih
    have hbegin : Compares (.mark .parenL :: ls) := .cons (by simp) h
    exact ⟨.mark .parenL :: ls, _, rfl, rfl, hbegin.append (.singleton (by simp))⟩
  | unary op _ ih =>
    obtain ⟨init, last, rfl, hlast, h⟩ := ih
    exact ⟨.mark op.mark :: init, last, rfl, hlast, .cons op.mark_ne_lt h⟩
  | binary op _ _ ihl ihr =>
    obtain ⟨init, last, rfl, hlast, h⟩ := ihl
    obtain ⟨init', last', rfl, hlast', h'⟩ := ihr
    have hop := (h.concat hlast (.mark op.mark)).append h'
    exact ⟨init ++ [last] ++ .mark op.mark :: init', last', by simp, hlast', by simpa using hop⟩

theorem IsExpr.compares_append {ls rest : List Lexeme} (h : IsExpr ls) (hrest : Compares rest) :
    Compares (ls ++ rest) := by
  obtain ⟨-, -, -, -, he⟩ := h.compares
  exact he.append hrest

mutual

theorem IsStmt.compares {ls : List Lexeme} : IsStmt ls → Compares ls
  | .declare hm he =>
    .cons (by rcases hm with rfl | rfl <;> simp)
      (.cons (by simp) (.cons (by simp) (he.compares_append (.singleton (by simp)))))
  | .assign he => .cons (by simp) (.cons (by simp) (he.compares_append (.singleton (by simp))))
  | @IsStmt.loop ls body he hb => by
    have hbody : Compares (.mark .braceL :: (body ++ [.mark .braceR])) :=
      .cons (by simp) (hb.compares.append (.singleton (by simp)))
    have hloop : Compares (.mark .while :: (ls ++ .mark .braceL :: (body ++ [.mark .braceR]))) :=
      .cons (by simp) (he.compares_append hbody)
    simpa using hloop

theorem IsStmts.compares {ls : List Lexeme} : IsStmts ls → Compares ls
  | .done => .nil
  | .semicolon hs => .cons (by simp) hs.compares
  | .statement hs hrest => hs.compares.append hrest.compares

end

theorem IsProgram.compares {ls : List Lexeme} (h : IsProgram ls) : Compares ls := by
  cases h with
  | mk hbody hresult =>
    have hend : Compares [.mark .semicolon, .mark .endOfFile] :=
      .cons (by simp) (.singleton (by simp))
    have hreturn := Compares.cons (l := .mark .return) (by simp) (hresult.compares_append hend)
    simpa using hbody.compares.append hreturn

/-! ## Texts that fall apart -/

/-- The lexemes that a text is read as. -/
def lexemesOf (text : String) : List Lexeme :=
  lexemes (Source.ofString text).chars

theorem chars_ofString_append (s t : String) :
    (Source.ofString (s ++ t)).chars = (Source.ofString s).chars ++ (Source.ofString t).chars := by
  simp [Source.ofString, Source.chars]

/-- Read in one piece, the two are read as each of them. -/
def Apart (s t : String) : Prop :=
  lexemesOf (s ++ t) = lexemesOf s ++ lexemesOf t

theorem pieces_append {x z : List Char} (hz : Unreached z) :
    pieces (x ++ z) = pieces x ++ pieces z := by
  have hself : pieces (x ++ []) = pieces x ++ [] := by rw [List.append_nil, List.append_nil]
  obtain ⟨ps, hx, happend⟩ := (Seam.of_pieces hself (text_pieces x)).exists_pieces_append
  rw [List.append_nil, pieces_nil, List.append_nil] at hx
  rw [happend z hz, hx]

theorem lexemes_append {x z : List Char} (hz : Unreached z) :
    lexemes (x ++ z) = lexemes x ++ lexemes z := by
  rw [lexemes, pieces_append hz, List.filterMap_append]
  rfl

theorem Unreached.apart {s t : String} (h : Unreached (Source.ofString t).chars) : Apart s t := by
  rw [Apart, lexemesOf, chars_ofString_append]
  exact lexemes_append h

/-- The text ends in a blank. -/
def EndsBlank (text : String) : Prop :=
  ∃ x c, (Source.ofString text).chars = x ++ [c] ∧ isBlank c = true

theorem EndsBlank.apart {s t : String} (h : EndsBlank s) : Apart s t := by
  obtain ⟨x, c, hchars, hc⟩ := h
  have hblank (z : List Char) : lexemes (x ++ c :: z) = lexemes x ++ lexemes z := by
    rw [lexemes_append (.of_isBlank hc z), lexemes, lexemes, pieces_cons, reach_of_isBlank hc,
      Piece.ofText, if_pos hc]
    rfl
  rw [Apart, lexemesOf, lexemesOf, chars_ofString_append, hchars, List.append_assoc,
    List.singleton_append, hblank, hblank]
  simp [lexemesOf, lexemes]

theorem EndsBlank.append {s t : String} (ht : EndsBlank t) : EndsBlank (s ++ t) := by
  obtain ⟨x, c, hchars, hc⟩ := ht
  refine ⟨(Source.ofString s).chars ++ x, c, ?_, hc⟩
  rw [chars_ofString_append, hchars, List.append_assoc]

theorem endsBlank_newline : EndsBlank "\n" := ⟨[], '\n', by decide, by decide⟩

theorem EndsBlank.before {s : String} (h : EndsBlank s) {indent : Indent} (hi : indent.Blank)
    (depth : Nat) : EndsBlank (s ++ indent.before depth) := by
  have hblank := Indent.forall_before hi depth
  have hchars := chars_ofString_of_ascii fun c hc => toNat_lt_of_isBlank (hblank c hc)
  rcases List.eq_nil_or_concat (indent.before depth).toList with hnil | ⟨x, c, hx⟩
  · rwa [String.toList_eq_nil_iff.1 hnil, String.append_empty]
  · rw [List.concat_eq_append] at hx
    refine EndsBlank.append ⟨x, c, hchars.trans hx, hblank c ?_⟩
    rw [hx]
    exact List.mem_append_right _ (List.mem_singleton_self c)

/-! ## Where the printer has a placeholder -/

/-- The text ends in a mark that no operand ends in. -/
def Opens (text : String) : Prop :=
  ∃ ls m, lexemesOf text = ls ++ [.mark m] ∧ (Lexeme.mark m).endsOperand = false

theorem Opens.append {s t : String} (ht : Opens t) (h : Apart s t) : Opens (s ++ t) := by
  obtain ⟨ls, m, hls, hm⟩ := ht
  refine ⟨lexemesOf s ++ ls, m, ?_, hm⟩
  rw [h, hls, List.append_assoc]

/-- A placeholder is read as a `<` and more. -/
theorem lexemesOf_errorName (t : String) :
    Unreached (Source.ofString (Symbol.errorName ++ t)).chars ∧
      ∃ ls, lexemesOf (Symbol.errorName ++ t) = .mark .lt :: ls := by
  have hchars : (Source.ofString Symbol.errorName).chars = '<' :: 'e' :: "rror>".toList := by
    decide
  rw [lexemesOf, chars_ofString_append, hchars, List.cons_append, List.cons_append]
  refine ⟨.cons (by decide) _, lexemes ('e' :: ("rror>".toList ++ (Source.ofString t).chars)), ?_⟩
  rw [lexemes, pieces_cons]
  rfl

/-- Behind such a mark a placeholder stands where no `<` can. -/
theorem Opens.not_compares {s : String} (h : Opens s) (t : String) :
    ¬Compares (lexemesOf (s ++ (Symbol.errorName ++ t))) := by
  obtain ⟨ls, m, hls, hm⟩ := h
  obtain ⟨hunreached, more, hmore⟩ := lexemesOf_errorName t
  rw [hunreached.apart, hls, hmore, List.append_assoc, List.singleton_append]
  intro hc
  rw [hc.endsOperand] at hm
  cases hm

theorem opens_parenL (s : String) : Opens (s ++ "(") := by
  refine Opens.append ⟨[], .parenL, by decide, rfl⟩ (Unreached.apart ?_)
  exact .cons (by decide) []

theorem opens_operator (s : String) (op : BinaryOp) : Opens (s ++ (" " ++ op.text ++ " ")) := by
  refine Opens.append ⟨[], op.mark, by cases op <;> decide, by cases op <;> rfl⟩
    (Unreached.apart ?_)
  rw [String.append_assoc, chars_ofString_append]
  exact .cons (by decide) _

theorem opens_assign (s : String) : Opens (s ++ " = ") := by
  refine Opens.append ⟨[], .assign, by decide, rfl⟩ (Unreached.apart ?_)
  exact .cons (by decide) _

theorem EndsBlank.opens {s t : String} (h : EndsBlank s) (ht : Opens t) : Opens (s ++ t) :=
  ht.append h.apart

theorem Expr.not_compares_text {e : Expr} {n : Node} (h : .hole n ∈ e.nodes) {s : String}
    (hs : Opens s) (t : String) : ¬Compares (lexemesOf (s ++ (e.text ++ t))) := by
  induction e generalizing s t with
  | hole n' => exact hs.not_compares t
  | binary n' op l r ihl ihr =>
    rw [nodes, List.mem_append, List.mem_append, List.mem_singleton] at h
    rcases h with (h | h) | h
    · have hl := ihl h (opens_parenL s) (" " ++ op.text ++ " " ++ r.text ++ ")" ++ t)
      simpa [text, String.append_assoc] using hl
    · have hr := ihr h (opens_operator (s ++ "(" ++ l.text) op) (")" ++ t)
      simpa [text, String.append_assoc] using hr
    · cases h
  | unary n' op e ih =>
    rw [nodes, List.mem_append, List.mem_singleton] at h
    rcases h with h | h
    · have he := ih h (opens_parenL (s ++ op.text)) (")" ++ t)
      simpa [text, String.append_assoc] using he
    · cases h
  | bool | int | var => cases List.mem_singleton.1 h

/-! ## Lines -/

theorem Line.renderAll_cons (indent : Indent) (line : Line) (lines : List Line) :
    Line.renderAll indent (line :: lines) = line.render indent ++ Line.renderAll indent lines := by
  simp [renderAll, String.join_cons]

theorem Line.renderAll_append (indent : Indent) (lines lines' : List Line) :
    Line.renderAll indent (lines ++ lines') =
      Line.renderAll indent lines ++ Line.renderAll indent lines' := by
  simp [renderAll]

theorem endsBlank_render (indent : Indent) (line : Line) : EndsBlank (line.render indent) :=
  endsBlank_newline.append

theorem EndsBlank.lines {s : String} (h : EndsBlank s) (indent : Indent) (lines : List Line) :
    EndsBlank (s ++ Line.renderAll indent lines) := by
  induction lines generalizing s with
  | nil => simpa [Line.renderAll] using h
  | cons line lines ih =>
    rw [Line.renderAll_cons, ← String.append_assoc]
    exact ih (endsBlank_render indent line).append

/-- The expression has a placeholder in it. -/
def Expr.Lacks (e : Expr) : Prop := ∃ n, .hole n ∈ e.nodes

/-- An expression is missing, or the name of a declaration. -/
def Block.Lacks (b : Block) : Prop :=
  (∃ n, .hole n ∈ b.exprs) ∨ ∃ d ∈ b.declarations, d.symbol.isError = true

namespace Block

theorem lacks_declare_iff {d : Declaration} {rest : Block} :
    (declare d rest).Lacks ↔ d.init.Lacks ∨ d.symbol.isError = true ∨ rest.Lacks := by
  simp only [Lacks, Expr.Lacks, exprs, declarations, List.mem_append, exists_or,
    List.exists_mem_cons_iff]
  grind

theorem lacks_assign_iff {a : Assignment} {rest : Block} :
    (assign a rest).Lacks ↔ a.value.Lacks ∨ rest.Lacks := by
  simp only [Lacks, Expr.Lacks, exprs, declarations, List.mem_append, exists_or, or_assoc]

theorem lacks_loop_iff {w : LoopHead} {body rest : Block} :
    (loop w body rest).Lacks ↔ w.cond.Lacks ∨ body.Lacks ∨ rest.Lacks := by
  simp only [Lacks, Expr.Lacks, exprs, declarations, List.mem_append, exists_or, or_and_right]
  grind

theorem not_compares_lines {indent : Indent} (hi : indent.Blank) {b : Block} (h : b.Lacks)
    (hty : ∀ d ∈ b.declarations, d.ty ≠ .unknown) (depth : Nat) {s : String} (hs : EndsBlank s)
    (t : String) : ¬Compares (lexemesOf (s ++ (Line.renderAll indent (b.lines depth) ++ t))) := by
  induction b generalizing depth s t with
  | done => simp [Lacks, exprs, declarations] at h
  | declare d rest ih =>
    obtain ⟨hd, hrest⟩ := List.forall_mem_cons.1 hty
    rw [lines, Line.renderAll_cons]
    rcases lacks_declare_iff.1 h with ⟨n, h⟩ | h | h
    · have hinit := Expr.not_compares_text h
        (opens_assign (s ++ indent.before depth ++ d.ty.text ++ " " ++ d.symbol.name))
        (";\n" ++ (Line.renderAll indent (rest.lines depth) ++ t))
      simpa [Line.render, String.append_assoc] using hinit
    · have hopens : Opens (d.ty.text ++ " ") := by
        cases hty : d.ty with
        | int => exact ⟨[], .int, by decide, rfl⟩
        | bool => exact ⟨[], .bool, by decide, rfl⟩
        | unknown => exact absurd hty hd
      have hname : d.symbol.name = Symbol.errorName := of_decide_eq_true h
      have hdecl := ((hs.before hi depth).opens hopens).not_compares
        (" = " ++ (d.init.text ++ (";\n" ++ (Line.renderAll indent (rest.lines depth) ++ t))))
      simpa [Line.render, String.append_assoc, hname] using hdecl
    · rw [String.append_assoc, ← @String.append_assoc s]
      exact ih h hrest depth (endsBlank_render ..).append t
  | assign a rest ih =>
    rw [lines, Line.renderAll_cons]
    rcases lacks_assign_iff.1 h with ⟨n, h⟩ | h
    · have hvalue := Expr.not_compares_text h
        (opens_assign (s ++ indent.before depth ++ a.symbol.name))
        (";\n" ++ (Line.renderAll indent (rest.lines depth) ++ t))
      simpa [Line.render, String.append_assoc] using hvalue
    · rw [String.append_assoc, ← @String.append_assoc s]
      exact ih h hty depth (endsBlank_render ..).append t
  | loop w body rest ihb ihr =>
    obtain ⟨hbody, hrest⟩ := List.forall_mem_append.1 hty
    rw [lines, List.cons_append, Line.renderAll_cons, Line.renderAll_append, Line.renderAll_cons]
    rcases lacks_loop_iff.1 h with ⟨n, h⟩ | h | h
    · have hopens : Opens "while " := ⟨[], .while, by decide, rfl⟩
      have hcond := Expr.not_compares_text h ((hs.before hi depth).opens hopens)
        (" \x7b\n" ++ (Line.renderAll indent (body.lines (depth + 1)) ++
          (Line.render indent ⟨depth, "\x7d"⟩ ++ (Line.renderAll indent (rest.lines depth) ++ t))))
      simpa [Line.render, String.append_assoc] using hcond
    · rw [String.append_assoc, ← @String.append_assoc s,
        @String.append_assoc (Line.renderAll indent (body.lines (depth + 1)))]
      exact ihb h hbody (depth + 1) (endsBlank_render ..).append _
    · have hclose : EndsBlank (s ++
          (Line.render indent ⟨depth, "while " ++ w.cond.text ++ " \x7b"⟩ ++
            (Line.renderAll indent (body.lines (depth + 1)) ++
              Line.render indent ⟨depth, "\x7d"⟩))) :=
        (endsBlank_render ..).append.append.append
      simpa only [String.append_assoc] using ihr h hrest depth hclose t

end Block

namespace Program

/-- An expression is missing, or the name of a declaration. -/
def Lacks (p : Program) : Prop :=
  (∃ n, .hole n ∈ p.exprs) ∨ ∃ d ∈ p.body.declarations, d.symbol.isError = true

theorem lacks_iff {p : Program} : p.Lacks ↔ p.body.Lacks ∨ p.result.Lacks := by
  simp only [Lacks, Block.Lacks, Expr.Lacks, exprs, List.mem_append, exists_or]
  grind

theorem not_compares_text {indent : Indent} (hi : indent.Blank) {p : Program} (h : p.Lacks)
    (hty : ∀ d ∈ p.body.declarations, d.ty ≠ .unknown) :
    ¬Compares (lexemesOf (p.text indent)) := by
  -- a newline in front is not seen, and then every line begins behind a blank
  have hapart : Apart "\n" (p.text indent) := endsBlank_newline.apart
  have hsame : lexemesOf (p.text indent) = lexemesOf ("\n" ++ p.text indent) := by
    rw [hapart]
    rfl
  rw [hsame, text, lines, Line.renderAll_append]
  rcases lacks_iff.1 h with h | ⟨n, h⟩
  · exact Block.not_compares_lines hi h hty 0 endsBlank_newline _
  · have hbefore := endsBlank_newline.lines indent (p.body.lines 0)
    have hopens : Opens "return " := ⟨[], .return, by decide, rfl⟩
    have hresult := Expr.not_compares_text h (hbefore.opens hopens) ";\n"
    simpa [Line.renderAll, Line.render, Indent.before, String.append_assoc] using hresult

end Program

/-! ## Where nothing is missing -/

/-- A tree that was read is whole unless there is a placeholder in it. -/
theorem Expr.InFile.whole {f : FileId} {e : Expr} (h : e.InFile f) (hl : ¬e.Lacks) : e.Whole := by
  induction e with
  | binary n op l r ihl ihr =>
    have hl' : ¬l.Lacks := fun ⟨m, hm⟩ => hl ⟨m, by simp [nodes, hm]⟩
    have hr' : ¬r.Lacks := fun ⟨m, hm⟩ => hl ⟨m, by simp [nodes, hm]⟩
    exact ⟨ihl h.2.1 hl', ihr h.2.2 hr'⟩
  | unary n op e ih => exact ih h.2 fun ⟨m, hm⟩ => hl ⟨m, by simp [nodes, hm]⟩
  | bool | int => trivial
  | var n s => exact h.2.name
  | hole n => exact hl ⟨n, List.mem_singleton_self _⟩

theorem Block.InFile.whole {f : FileId} {b : Block} (h : b.InFile f) (hl : ¬b.Lacks)
    (hty : ∀ d ∈ b.declarations, d.ty ≠ .unknown) : b.Whole := by
  induction b with
  | done => trivial
  | declare d rest ih =>
    obtain ⟨-, hsymbol, hinit, hrest⟩ := h
    obtain ⟨hd, hty⟩ := List.forall_mem_cons.1 hty
    rw [lacks_declare_iff, not_or, not_or] at hl
    obtain ⟨hli, hls, hlr⟩ := hl
    rcases hsymbol with hread | ⟨-, herror⟩
    · exact ⟨hinit.whole hli, hd, hread.name, ih hrest hlr hty⟩
    · exact absurd herror hls
  | assign a rest ih =>
    obtain ⟨-, hsymbol, hvalue, hrest⟩ := h
    rw [lacks_assign_iff, not_or] at hl
    exact ⟨hvalue.whole hl.1, hsymbol.name, ih hrest hl.2 hty⟩
  | loop w body rest ihb ihr =>
    obtain ⟨-, -, hcond, hbody, hrest⟩ := h
    obtain ⟨htyb, htyr⟩ := List.forall_mem_append.1 hty
    rw [lacks_loop_iff, not_or, not_or] at hl
    exact ⟨hcond.whole hl.1, ihb hbody hl.2.1 htyb, ihr hrest hl.2.2 htyr⟩

namespace Program

/-- **The printed form of a tree has a fault of structure exactly if something is missing in it.**
If nothing is, nothing at all is found in it. -/
theorem lacks_iff_reparse (file file' : FileId) (source : Source) {indent : Indent}
    (hi : indent.Blank) :
    let p := (ofSource file source).1
    let log := (ofSource file' (.ofString (p.text indent))).2
    (((∃ n, .hole n ∈ p.exprs) ∨ ∃ d ∈ p.body.declarations, d.symbol.isError = true) →
      ∃ d ∈ log.toList, d.kind = .parse) ∧
    ((∀ n, .hole n ∉ p.exprs) → (∀ d ∈ p.body.declarations, d.symbol.isError = false) →
      log.toList = []) := by
  intro p log
  have hty := ty_ne_unknown_ofSource file source
  constructor
  · intro h
    by_contra hnone
    push Not at hnone
    have hprogram := isProgram_of_countOf ((countOf_parse_ofSource_iff ..).2 hnone)
    exact not_compares_text hi h hty hprogram.compares.of_append
  · intro hholes hsymbols
    have hl : ¬p.Lacks := by
      rintro (⟨n, hn⟩ | ⟨d, hd, herror⟩)
      · exact hholes n hn
      · simp [hsymbols d hd] at herror
    rw [lacks_iff, not_or] at hl
    have hin := inFile_ofSource file source
    have hw : p.Whole := ⟨hin.body.whole hl.1 hty, hin.result.whole hl.2⟩
    obtain ⟨-, hlog⟩ := ofSource_text_of_whole file' hw hi
    exact congrArg Log.toList hlog

/-- Names and values are missing in a loop and outside, next to each other and next to a `<`. -/
theorem lacks_iff_reparse_loop :
    let p := (ofSource ⟨0⟩ (.ofString "int = ; while x < \x7b bool y = < ; \x7d return -)1;")).1
    let log := (ofSource ⟨0⟩ (.ofString (p.text .tab))).2
    Indent.tab.Blank ∧ (∃ d ∈ p.body.declarations, d.symbol.isError = true) ∧
      ∃ d ∈ log.toList, d.kind = .parse :=
  have hi : Indent.tab.Blank := List.all_eq_true.1 (by decide +kernel)
  have h : ∃ d ∈ (ofSource ⟨0⟩ (.ofString
      "int = ; while x < \x7b bool y = < ; \x7d return -)1;")).1.body.declarations,
      d.symbol.isError = true := by
    decide +kernel
  ⟨hi, h, (lacks_iff_reparse ⟨0⟩ ⟨0⟩ _ hi).1 (.inr h)⟩

end Program

end WhileLang
