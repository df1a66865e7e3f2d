import WhileLang.Proofs.Parser.Extents
import WhileLang.Proofs.Token.Slices

/-!
# `WhileLang/Proofs/Parser/Reparse.lean` — the slice of a node is that node again

A span is right when it holds its node and nothing else. This can be tried: cut the span out of the
source and parse it. **In a source without findings, every expression and every statement comes back
from its own slice** (`Program.reparse_slices`), an expression as the result of a program, a
statement in front of one.

The proof joins two halves that know nothing of each other. On the side of the parser, the lexemes
taken between the begin and the end of a node are read as that node again. On the side of the lexer,
the slice between two places reads as the tokens between them. What joins them is how far the parser
had come in both states.
-/

set_option autoImplicit false

namespace WhileLang

namespace Lexer

/-- The tokens before the end of the file are those of the tiles. -/
theorem tokens_upcoming_ofSource (file : FileId) (source : Source) :
    (tilesOf file .start (pieces source.chars)).filterMap Tile.token? =
      (ofSource file source).upcoming.map (·.token) := by
  have h : (ofSource file source).tokens = _ := tokens_ofPieces file .start (pieces source.chars)
  have htokens : (ofSource file source).tokens =
      (ofSource file source).upcoming.map (·.token) ++ [(ofSource file source).final.token] := by
    simp [tokens, readings]
  exact (List.append_inj' (htokens.symm.trans h) rfl).1.symm

/-- Where no reading passes over a stray character, no piece is one. -/
theorem not_stray_of_readings {file : FileId} {source : Source}
    (h : ∀ r ∈ (ofSource file source).readings, r.strays = []) (c : Char) :
    .stray c ∉ pieces source.chars := by
  have hnone : (ofSource file source).diagnostics = [] := by
    rw [diagnostics, List.flatMap_eq_nil_iff]
    intro r hr
    rw [h r hr, List.map_nil]
  exact (diagnostics_ofPieces_eq_nil_iff ..).1 hnone c

end Lexer

namespace ParseState

theorem along_ofSource (file : FileId) (source : Source) :
    Along (.ofSource file source) (ofSource file source) :=
  along_start _

/-- At the end of a file without findings, no character of it was stray. -/
theorem Along.not_stray {file : FileId} {source : Source} {s : ParseState}
    (h : Along (.ofSource file source) s) (ha : s.ahead.lexeme = .mark .endOfFile)
    (hlog : s.log.toList = []) (c : Char) : .stray c ∉ pieces source.chars := by
  have hend := h.taken_eq Lexer.ne_endOfFile_of_mem_upcoming ha
  have hall : (Lexer.ofSource file source).readings.take (s.taken + 1) =
      (Lexer.ofSource file source).readings := by
    refine List.take_of_length_le ?_
    simp only [Lexer.readings, List.length_append, List.length_singleton]
    omega
  exact Lexer.not_stray_of_readings (hall ▸ h.strays hlog) c

/-- What is expected is found, if nothing is in the log afterwards, and nothing was before. -/
theorem log_eq_nil_of_expect {s : ParseState} {m : Mark} {c : ParseContext}
    (h : (s.expect m c).log.toList = []) : s.ahead.lexeme = .mark m ∧ s.log.toList = [] := by
  unfold expect at h
  split at h
  · rename_i ha
    have hlog : (s.log.append (s.lexer.next.1.strays.map (·.diagnostic))).toList = [] := h
    rw [Log.toList_append, List.append_eq_nil_iff] at hlog
    exact ⟨ha, hlog.1⟩
  · simp [report] at h

/-- What stands in a span is what its slice reads as. -/
theorem Delimits.exists_reads {file : FileId} {source : Source} {span : Span}
    {P : List Lexeme → Prop} (h : (ofSource file source).Delimits span P)
    (hlt : source.length < 4294967295) (hstray : ∀ c, .stray c ∉ pieces source.chars) :
    ∃ ls, P ls ∧ ∀ z ks, Unreached z → Reads z ks →
      Reads ((source.slice span).chars ++ z) (ls ++ ks) := by
  obtain ⟨s₁, s₂, ls, hl, hs, hP⟩ := h
  have hfinal := Lexer.lexeme_final_ofSource file source
  have h₁ := (along_ofSource file source).leads hfinal hl
  have h₂ := h₁.leads hfinal hs.leads
  obtain ⟨ts, us, vs, last, htokens, rfl, hfirst, hlast, hend⟩ :=
    h₁.exists_tokens h₂ hfinal Lexer.ne_endOfFile_of_mem_upcoming hs.taken hs.input
  rw [← Lexer.tokens_upcoming_ofSource] at htokens
  refine ⟨_, hP, fun z ks hz hr => ?_⟩
  exact reads_slice_append hlt hstray htokens hfirst hlast hs.first (hs.last.trans hend) hz hr

end ParseState

namespace Program

/-- In a parse without findings the nodes are delimited, and no character is stray. -/
theorem delimits_ofSource {file : FileId} {source : Source}
    (hlog : (ofSource file source).2 = .empty) :
    (∀ c, .stray c ∉ pieces source.chars) ∧
    (∀ e ∈ (ofSource file source).1.exprs,
      (ParseState.ofSource file source).Delimits e.span (ReadsAs e)) ∧
    ∀ st ∈ (ofSource file source).1.body.statements,
      (ParseState.ofSource file source).Delimits st.1.span (ReadsAsBlock st.2) := by
  obtain ⟨s₁, s₂, body, result, -, hbody, -, hresult, hp⟩ :=
    ParseState.extent_block_cases.program ParseState.extent_expr_cases
      (ParseState.ends_ofSource file source)
  have hreturn := hbody.trans (.expect (m := .return) (by simp) .program s₁)
  have hall := (hreturn.trans hresult).trans (.expect (m := .semicolon) (by simp) .resultEnd s₂)
  have hrun : ofSource file source = ((ParseM.program.run (.ofSource file source)).1,
    (ParseM.program.run (.ofSource file source)).2.log) := rfl
  rw [hrun, hp] at hlog ⊢
  have hend : ((s₂.expect .semicolon .resultEnd).expect .endOfFile .programEnd).log = .empty :=
    hlog
  have hnone :
      ((s₂.expect .semicolon .resultEnd).expect .endOfFile .programEnd).complaints = 0 := by
    rw [ParseState.complaints, hend]
    rfl
  obtain ⟨_, _, -, ⟨_, es, -, ⟨bs, _, -, hbs, -⟩, hes, -⟩, -⟩ := hall.lexemes hnone
  obtain ⟨hahead, hlast⟩ := ParseState.log_eq_nil_of_expect (hend ▸ Log.toList_empty)
  have halong := (ParseState.along_ofSource file source).leads
    (Lexer.lexeme_final_ofSource file source) hall.toLeads
  refine ⟨halong.not_stray hahead hlast, fun e he => ?_, hbs.statements⟩
  rcases List.mem_append.1 he with he | he
  · exact hbs.exprs e he
  · exact (hes.nodes e he).of_leads hreturn.toLeads

/-! ## Programs around a slice -/

theorem reads_semicolon : Reads [';'] [.mark .semicolon] :=
  Reads.nil.operator (m := .semicolon) (by decide) (by decide)

theorem reads_returnZero :
    Reads " return 0;".toList [.mark .return, .literal 0, .mark .semicolon] := by
  have hzero : Reads ('0' :: [] ++ [';']) [.literal 0, .mark .semicolon] :=
    reads_semicolon.number (List.all_eq_true.1 (by decide)) (.cons (by decide) _)
  have htext : " return 0;".toList =
      ' ' :: (Mark.return.text.toList ++ ' ' :: ('0' :: [] ++ [';'])) := rfl
  rw [htext]
  exact (hzero.space.keyword (by decide) (.cons (by decide) _)).space

/-- A slice that reads as an expression is the result of a program. -/
theorem ofSource_return (file : FileId) {slice : Source} {e : Expr} {ls : List Lexeme}
    (he : ReadsAs e ls) (hr : Reads (slice.chars ++ [';']) (ls ++ [.mark .semicolon])) :
    let q := ofSource file (.ofString "return " ++ slice ++ .ofString ";")
    q.2 = .empty ∧ q.1.result.bare = e.bare := by
  have hchars : (Source.ofString "return " ++ slice ++ Source.ofString ";").chars =
      Mark.return.text.toList ++ ' ' :: (slice.chars ++ [';']) := by
    rw [Source.chars_append, Source.chars_append, List.append_assoc,
      show (Source.ofString "return ").chars = Mark.return.text.toList ++ [' '] by decide,
      show (Source.ofString ";").chars = [';'] by decide, List.append_assoc]
    rfl
  have hread : Reads (Source.ofString "return " ++ slice ++ Source.ofString ";").chars
      (.mark .return :: (ls ++ [.mark .semicolon])) := by
    rw [hchars]
    exact hr.space.keyword (by decide) (.cons (by decide) _)
  have hprogram : ProgramAt (.mark .return :: (ls ++ [.mark .semicolon]))
      ⟨default, default, .done, e.bare⟩ :=
    .mk (.done (NoStatement.mark rfl _)) (he _ (.mark rfl []))
  obtain ⟨hshape, hlog⟩ := ofSource_of_programAt file hread hprogram
  generalize ofSource file (.ofString "return " ++ slice ++ .ofString ";") = q at hshape hlog ⊢
  exact ⟨hlog, congrArg Program.result hshape⟩

/-- A slice that reads as statements is the body of a program. -/
theorem ofSource_returnZero (file : FileId) {slice : Source} {b : Block} {ls : List Lexeme}
    (hb : ReadsAsBlock b ls) (hr : Reads (slice.chars ++ " return 0;".toList)
      (ls ++ [.mark .return, .literal 0, .mark .semicolon])) :
    let q := ofSource file (slice ++ .ofString " return 0;")
    q.2 = .empty ∧ q.1.body.shape = b.shape := by
  have hread : Reads (slice ++ Source.ofString " return 0;").chars
      (ls ++ [.mark .return, .literal 0, .mark .semicolon]) := by
    rwa [Source.chars_append, show (Source.ofString " return 0;").chars = " return 0;".toList by
      decide]
  have hresult : ExprAt .lowest [.literal 0, .mark .semicolon] (.int .bare 0) [.mark .semicolon] :=
    .of_operandAt .int (.mark rfl [])
  have hprogram : ProgramAt (ls ++ [.mark .return, .literal 0, .mark .semicolon])
      ⟨default, default, b.shape, .int .bare 0⟩ :=
    .mk (hb _ (NoStatement.mark rfl _)) hresult
  obtain ⟨hshape, hlog⟩ := ofSource_of_programAt file hread hprogram
  generalize ofSource file (slice ++ .ofString " return 0;") = q at hshape hlog ⊢
  exact ⟨hlog, congrArg Program.body hshape⟩

/-- **Every expression and every statement comes back from the slice of its span.** -/
theorem reparse_slices (file file' : FileId) (source : Source) (h : source.length < 4294967295)
    (hlog : (ofSource file source).2 = .empty) :
    let p := (ofSource file source).1
    (∀ e ∈ p.exprs,
      let q := ofSource file' (.ofString "return " ++ source.slice e.span ++ .ofString ";")
      q.2 = .empty ∧ q.1.result.bare = e.bare) ∧
    ∀ st ∈ p.body.statements,
      let q := ofSource file' (source.slice st.1.span ++ .ofString " return 0;")
      q.2 = .empty ∧ q.1.body.shape = st.2.shape := by
  intro p
  obtain ⟨hstray, hexprs, hstatements⟩ := delimits_ofSource hlog
  refine ⟨fun e he => ?_, fun st hst => ?_⟩
  · obtain ⟨ls, hls, hr⟩ := (hexprs e he).exists_reads h hstray
    exact ofSource_return file' hls (hr _ _ (.cons (by decide) _) reads_semicolon)
  · obtain ⟨ls, hls, hr⟩ := (hstatements st hst).exists_reads h hstray
    exact ofSource_returnZero file' hls (hr _ _ (.cons (by decide) _) reads_returnZero)

/-- Parentheses inside and around, a chain, and a loop over two rows. -/
theorem reparse_slices_loop :
    let source := Source.ofString
      "int x = ((1 - 2) - 3) * -4;\nwhile not x < 0 \x7b x = x - (1);\n\x7d return (x) + 0;"
    let p := (ofSource ⟨0⟩ source).1
    (source.length < 4294967295 ∧ (ofSource ⟨0⟩ source).2 = .empty) ∧
    (∀ e ∈ p.exprs,
      let q := ofSource ⟨1⟩ (.ofString "return " ++ source.slice e.span ++ .ofString ";")
      q.2 = .empty ∧ q.1.result.bare = e.bare) ∧
    ∀ st ∈ p.body.statements,
      let q := ofSource ⟨1⟩ (source.slice st.1.span ++ .ofString " return 0;")
      q.2 = .empty ∧ q.1.body.shape = st.2.shape := by
  intro source p
  have h : source.length < 4294967295 := by decide
  have hlog : (ofSource ⟨0⟩ source).2 = .empty := by decide +kernel
  have hall := reparse_slices ⟨0⟩ ⟨1⟩ source h hlog
  exact ⟨⟨h, hlog⟩, hall⟩

end Program

end WhileLang
