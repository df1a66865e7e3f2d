import WhileLang.Proofs.Parser.Reparse

/-!
# `WhileLang/Proofs/Parser/Spelled.lean` — the digits of an integer in the tree

The tree has a literal as a word of 64 bits, but its node has the place of the literal, and there
the source has all of its digits. **The slice at the node of an integer is a run of digits, and the
integer is what these denote, reduced to 64 bits** (`Program.decimal?_ofSource`). Nothing is assumed
of the rest of the source, which may have any errors.
-/

set_option autoImplicit false

namespace WhileLang

namespace ParseState

/-- Somewhere on from `s` the literal is ahead, in this span. -/
def Spells (s : ParseState) (span : Span) (v : Int64) : Prop :=
  ∃ s', s.Leads s' ∧ s'.ahead = ⟨.literal v, span⟩

theorem Spells.of_leads {s s' : ParseState} {span : Span} {v : Int64} (h : s'.Spells span v)
    (hl : s.Leads s') : s.Spells span v := by
  obtain ⟨s₁, hl₁, ha⟩ := h
  exact ⟨s₁, hl.trans hl₁, ha⟩

/-- All integers among the expressions were literals, somewhere on from `s`. -/
def SpellsAll (s : ParseState) (es : List Expr) : Prop :=
  ∀ n v, .int n v ∈ es → s.Spells n.span v

theorem SpellsAll.of_leads {s s' : ParseState} {es : List Expr} (h : s'.SpellsAll es)
    (hl : s.Leads s') : s.SpellsAll es := fun n v hv => (h n v hv).of_leads hl

theorem SpellsAll.append {s : ParseState} {es es' : List Expr} (h : s.SpellsAll es)
    (h' : s.SpellsAll es') : s.SpellsAll (es ++ es') :=
  fun n v hv => (List.mem_append.1 hv).elim (h n v) (h' n v)

/-- An expression that is no integer adds nothing. -/
theorem spellsAll_singleton {s : ParseState} {e : Expr} (h : ∀ n v, e ≠ .int n v) :
    s.SpellsAll [e] := fun n v hv => absurd (List.mem_singleton.1 hv).symm (h n v)

theorem spells_ahead {s : ParseState} {v : Int64} (ha : s.ahead.lexeme = .literal v) :
    s.Spells s.nodeAhead.span v :=
  ⟨s, .refl s, by rw [nodeAhead, ← ha]⟩

theorem spells_expr_cases : ParseM.ExprCases (fun _ _ s e _ => s.SpellsAll e.nodes)
    (fun _ s e _ => s.SpellsAll e.nodes)
    (fun begin _ lhs s e _ => begin.Leads s → begin.SpellsAll lhs.nodes →
      begin.SpellsAll e.nodes) where
  ofOperand hl _ hO hR := hR hl hO
  var _ := spellsAll_singleton nofun
  int {_ s v} ha := by
    intro n w hw
    obtain ⟨rfl, rfl⟩ := Expr.int.inj (List.mem_singleton.1 hw)
    exact spells_ahead ha
  bool _ := spellsAll_singleton nofun
  parenthesis ha _ hE := hE.of_leads (.advance (by simp [ha]))
  unary {_ _ _ op _} ha _ hE := by
    have hadvance := hE.of_leads (.advance (by simpa [ha] using op.mark_ne_endOfFile))
    exact hadvance.append (spellsAll_singleton nofun)
  hole _ := spellsAll_singleton nofun
  stop _ _ hlhs := hlhs
  step {begin s s₁ _ _ op _ _ _} ha _ hl _ hE hR hbegin hlhs := by
    have hadvance : s.Leads s.advance := .advance (by simpa [ha] using op.mark_ne_endOfFile)
    have hrhs := hE.of_leads (hbegin.trans hadvance)
    refine hR ?_ ((hlhs.append hrhs).append (spellsAll_singleton nofun))
    exact ((hbegin.trans hadvance).trans hl).trans (.numberNode s₁)

theorem spells_block_cases : ParseM.BlockCases (fun _ s e _ => s.SpellsAll e.nodes)
    (fun s b _ => s.SpellsAll b.exprs) where
  done _ := nofun
  semicolon ha _ hS := hS.of_leads (.advance (by simp [ha]))
  declare {s s₁ _ _ _ _ _} ha hty hl hX _ hS := by
    have hbegin := (Leads.advance (ahead_ne_endOfFile_of_type ha hty)).trans
      (.beginDeclaration s)
    have hend := (Leads.expect (m := .semicolon) (by simp) .declarationEnd s₁).trans
      ((Leads.numberDecl _).trans (.numberNode _))
    exact (hX.of_leads hbegin).append (hS.of_leads ((hbegin.trans hl).trans hend))
  assign {s s₁ _ _ _ _} ha hl hX _ hS := by
    have hbegin := (Leads.advance (s := s) (by simp [ha])).trans (.beginAssignment s)
    have hend := (Leads.expect (m := .semicolon) (by simp) .assignmentEnd s₁).trans
      (.numberNode _)
    exact (hX.of_leads hbegin).append (hS.of_leads ((hbegin.trans hl).trans hend))
  loop {s s₁ s₂ _ _ _ _} ha hl hX hl₁ hB _ hS := by
    have hadvance := Leads.advance (s := s) (by simp [ha])
    have hopen := (hadvance.trans hl).trans (.expect (m := .braceL) (by simp) .loop s₁)
    have hclose := (hopen.trans hl₁).trans
      ((Leads.expect (m := .braceR) (by simp) .loop s₂).trans (.numberNode _))
    exact ((hX.of_leads hadvance).append (hB.of_leads hopen)).append (hS.of_leads hclose)

/-- What a literal was read from is a run of digits with its value. -/
theorem Spells.decimal? {file : FileId} {source : Source} {span : Span} {v : Int64}
    (h : (ofSource file source).Spells span v) (hlt : source.length < 4294967295) :
    ∃ z, source.decimal? span = some z ∧ Int64.ofInt z = v := by
  obtain ⟨s, hl, ha⟩ := h
  have hfinal := Lexer.lexeme_final_ofSource file source
  have halong := (along_ofSource file source).leads hfinal hl
  have hne : s.ahead.lexeme ≠ .mark .endOfFile := by simp [ha]
  have htoken := halong.getElem?_of_lt (halong.taken_lt hfinal hne)
  rw [← Lexer.tokens_upcoming_ofSource] at htoken
  obtain ⟨ts, us, hsplit⟩ := List.append_of_mem (List.mem_of_getElem? htoken)
  obtain ⟨xs, spelling, ys, hpieces, -, hspan⟩ := exists_pieces_of_token hsplit
  rw [ha] at hpieces hspan
  have hpiece : .token spelling (.literal v) ∈ pieces source.chars := by simp [hpieces]
  obtain ⟨hspelling, hdigits, hvalue⟩ := (tokenText_of_mem_pieces hpiece).digits
  have hspan : span = ⟨file, Position.start.after (xs.flatMap Piece.text),
      (Position.start.after (xs.flatMap Piece.text)).last spelling⟩ := congrArg Token.span hspan
  have hslice : (source.slice span).chars = spelling := by
    rw [List.append_cons] at hpieces
    have hchars := @chars_slice_of_pieces _ span _ _ _ hlt hpieces
      (by simpa [Piece.text] using hspelling) (by rw [hspan])
      (by rw [hspan]; simp [Piece.text, Position.last, Position.after_append])
    simpa [Piece.text] using hchars
  refine ⟨Nat.ofDigitChars 10 spelling 0, ?_, ?_⟩
  · rw [Source.decimal?, hslice]
    exact if_pos ⟨hspelling, List.all_eq_true.2 hdigits⟩
  · rw [← hvalue]
    rfl

end ParseState

/-- **Every integer of a tree is what digits of its source denote**, reduced to 64 bits. -/
theorem Program.decimal?_ofSource (file : FileId) {source : Source}
    (hlt : source.length < 4294967295) :
    ∀ n v, .int n v ∈ (ofSource file source).1.exprs →
      ∃ z, source.decimal? n.span = some z ∧ Int64.ofInt z = v := by
  obtain ⟨s₁, s₂, body, result, hl, hbody, -, hresult, hp⟩ :=
    ParseState.spells_block_cases.program ParseState.spells_expr_cases
      (ParseState.ends_ofSource file source)
  have hrun : (ofSource file source).1 = (ParseM.program.run (.ofSource file source)).1 := rfl
  have hreturn := hl.trans (.expect (m := .return) (by simp) .program s₁)
  rw [hrun, hp]
  intro n v hv
  exact (hbody.append (hresult.of_leads hreturn) n v hv).decimal? hlt

end WhileLang
