import WhileLang.Proofs.Parser.Order

/-!
# `WhileLang/Proofs/Parser/Spans.lean` — every stretch of a parse is one of its source

The begin of a stretch is that of the token ahead when something is begun, its end that of the token
taken last when it is finished. If nothing was taken in between, the token taken last stands before
the begin, and the stretch is a single place instead. So **no stretch ends before it begins, and
none extends past the end of the file**, however much of a construct is missing
(`ParseState.Along.standsIn_spanSince`).

A statement takes a token at least, so the next one begins behind it, and both are between the begin
and the end of their list (`ParseState.Row`).
-/

set_option autoImplicit false

namespace WhileLang

/-! ## The stretches of a tree -/

def Expr.spans : Expr → List Span
  | .binary n _ l r => n.span :: (l.spans ++ r.spans)
  | .unary n _ e => n.span :: e.spans
  | .bool n _ | .int n _ | .hole n => [n.span]
  | .var n s => [n.span, s.span]

namespace Block

/-- Every stretch in a block: of statements, symbols and expressions, and of the blocks of loops. -/
def spans : Block → List Span
  | .done => []
  | .declare d rest => d.node.span :: d.symbol.span :: (d.init.spans ++ rest.spans)
  | .assign a rest => a.node.span :: a.symbol.span :: (a.value.spans ++ rest.spans)
  | .loop w body rest => w.node.span :: w.bodySpan :: (w.cond.spans ++ (body.spans ++ rest.spans))

/-- The stretches of the statements of a block, those of loop bodies apart. -/
def statementSpans : Block → List Span
  | .done => []
  | .declare d rest => d.node.span :: rest.statementSpans
  | .assign a rest => a.node.span :: rest.statementSpans
  | .loop w _ rest => w.node.span :: rest.statementSpans

/-- The blocks of the loops in a block, at any depth, with their stretches. -/
def bodies : Block → List (Span × Block)
  | .done => []
  | .declare _ rest => rest.bodies
  | .assign _ rest => rest.bodies
  | .loop w body rest => (w.bodySpan, body) :: (body.bodies ++ rest.bodies)

/-- The statements of a block stand one after the other in this stretch. -/
structure StandsIn (list : Span) (b : Block) : Prop where
  disjoint : b.statementSpans.Pairwise fun a b => a.last < b.first
  within : ∀ a ∈ b.statementSpans, list.first ≤ a.first ∧ a.last ≤ list.last

end Block

def Program.spans (p : Program) : List Span :=
  p.span :: p.bodySpan :: (p.body.spans ++ p.result.spans)

/-- All blocks of a program with their stretches, its own first. -/
def Program.blocks (p : Program) : List (Span × Block) :=
  (p.bodySpan, p.body) :: p.body.bodies

/-- The stretches that a diagnostic shows, its own first. -/
def Diagnostic.spans (d : Diagnostic) : List Span :=
  d.span :: d.notes.map (·.span)

/-- The stretch begins in one of these places and ends there or behind it, but not behind the end of
the file. -/
structure Span.StandsIn (lexer : Lexer) (begins : List Position) (a : Span) : Prop where
  begins : a.first ∈ begins
  ordered : a.first ≤ a.last
  ends : a.last ≤ lexer.final.token.span.first

namespace Lexer

/-- Where the tokens of a lexer begin, the end of the file among them. -/
def begins (lexer : Lexer) : List Position :=
  lexer.tokens.map (·.span.first)

variable {lexer : Lexer} {i j : Nat} {t u : Token}

theorem Ascends.standsIn_token (h : lexer.Ascends) (ht : t ∈ lexer.tokens) :
    t.span.StandsIn lexer lexer.begins := by
  have hspan := Ascends.span_mem_spans ht
  exact ⟨List.mem_map_of_mem ht, h.ordered _ hspan, h.last_le_final _ hspan⟩

theorem Ascends.last_lt_first (h : lexer.Ascends) (ht : lexer.tokens[i]? = some t)
    (hu : lexer.tokens[j]? = some u) (hij : i < j) : t.span.last < u.span.first := by
  obtain ⟨hi, rfl⟩ := List.getElem?_eq_some_iff.1 ht
  obtain ⟨hj, rfl⟩ := List.getElem?_eq_some_iff.1 hu
  exact List.pairwise_iff_getElem.1 h.pairwise_tokens i j hi hj hij

theorem Ascends.first_le_first (h : lexer.Ascends) (ht : lexer.tokens[i]? = some t)
    (hu : lexer.tokens[j]? = some u) (hij : i ≤ j) : t.span.first ≤ u.span.first := by
  rcases Nat.eq_or_lt_of_le hij with rfl | hlt
  · rw [Option.some.inj (ht.symm.trans hu)]
  · have hordered := (h.standsIn_token (List.mem_of_getElem? ht)).ordered
    exact hordered.trans (le_of_lt (h.last_lt_first ht hu hlt))

theorem Ascends.last_le_last (h : lexer.Ascends) (ht : lexer.tokens[i]? = some t)
    (hu : lexer.tokens[j]? = some u) (hij : i ≤ j) : t.span.last ≤ u.span.last := by
  rcases Nat.eq_or_lt_of_le hij with rfl | hlt
  · rw [Option.some.inj (ht.symm.trans hu)]
  · have hordered := (h.standsIn_token (List.mem_of_getElem? hu)).ordered
    exact (le_of_lt (h.last_lt_first ht hu hlt)).trans hordered

end Lexer

namespace ParseState

variable {lexer : Lexer} {s s' : ParseState}

theorem Along.standsIn_ahead (hs : Along lexer s) (h : lexer.Ascends) :
    s.ahead.span.StandsIn lexer lexer.begins :=
  h.standsIn_token (List.mem_of_getElem? hs.ahead)

/-- The token taken last, if one was taken. -/
theorem Along.exists_last (hs : Along lexer s) (h0 : s.taken ≠ 0) :
    ∃ t, lexer.tokens[s.taken - 1]? = some t ∧ s.lastEnd = t.span.last := by
  have hlen := (List.getElem?_eq_some_iff.1 hs.ahead).1
  have ht : lexer.tokens[s.taken - 1]? = some lexer.tokens[s.taken - 1] :=
    List.getElem?_eq_getElem (by omega)
  exact ⟨_, ht, hs.lastEnd _ h0 ht⟩

theorem Along.first_le_first (hs : Along lexer s) (hs' : Along lexer s') (h : lexer.Ascends)
    (hle : s.taken ≤ s'.taken) : s.ahead.span.first ≤ s'.ahead.span.first :=
  h.first_le_first hs.ahead hs'.ahead hle

theorem Along.lastEnd_lt (hs : Along lexer s) (h : lexer.Ascends) (h0 : s.taken ≠ 0) :
    s.lastEnd < s.ahead.span.first := by
  obtain ⟨t, ht, hlast⟩ := hs.exists_last h0
  rw [hlast]
  exact h.last_lt_first ht hs.ahead (by omega)

theorem Along.lastEnd_le (hs : Along lexer s) (hs' : Along lexer s') (h : lexer.Ascends)
    (h0 : s.taken ≠ 0) (hle : s.taken ≤ s'.taken) : s.lastEnd ≤ s'.lastEnd := by
  obtain ⟨t, ht, hlast⟩ := hs.exists_last h0
  obtain ⟨t', ht', hlast'⟩ := hs'.exists_last (by omega)
  rw [hlast, hlast']
  exact h.last_le_last ht ht' (by omega)

/-- **A stretch that ends here is one of the source**, wherever it began. -/
theorem Along.standsIn_spanSince (hs' : Along lexer s') (hs : Along lexer s) (h : lexer.Ascends)
    (hle : s.taken ≤ s'.taken) : (s.spanSince s').StandsIn lexer lexer.begins := by
  have hahead := hs.standsIn_ahead h
  unfold spanSince
  split
  · exact ⟨hahead.begins, le_refl _, hahead.ordered.trans hahead.ends⟩
  · rename_i hne
    obtain ⟨t, ht, hlast⟩ := hs'.exists_last (by omega)
    have htoken := h.standsIn_token (List.mem_of_getElem? ht)
    rw [hlast]
    exact ⟨hahead.begins, (h.first_le_first hs.ahead ht (by omega)).trans htoken.ordered,
      htoken.ends⟩

/-! ## Statements one after the other -/

/-- These are stretches of statements that were read, one after the other, on the way. -/
structure Row (s : ParseState) (stretches : List Span) (s' : ParseState) : Prop where
  disjoint : stretches.Pairwise fun a b => a.last < b.first
  within : ∀ a ∈ stretches,
    s.taken < s'.taken ∧ s.ahead.span.first ≤ a.first ∧ a.last ≤ s'.lastEnd

namespace Row

variable {s₁ : ParseState} {stretches : List Span}

theorem nil (s s' : ParseState) : Row s [] s' :=
  ⟨List.Pairwise.nil, List.forall_mem_nil _⟩

/-- What is taken before the first statement is not part of it. -/
theorem later (hs : Along lexer s) (hs₁ : Along lexer s₁) (h : lexer.Ascends)
    (hle : s.taken ≤ s₁.taken) (hrow : Row s₁ stretches s') : Row s stretches s' := by
  refine ⟨hrow.disjoint, fun a ha => ?_⟩
  obtain ⟨hlt, hfirst, hlast⟩ := hrow.within a ha
  exact ⟨hle.trans_lt hlt, (hs.first_le_first hs₁ h hle).trans hfirst, hlast⟩

/-- A statement that took a token stands before those that are read behind it. -/
theorem cons (hs : Along lexer s) (hs₁ : Along lexer s₁) (hs' : Along lexer s') (h : lexer.Ascends)
    (hlt : s.taken < s₁.taken) (hle : s₁.taken ≤ s'.taken) (hrow : Row s₁ stretches s') :
    Row s (s.spanSince s₁ :: stretches) s' := by
  have h0 : s₁.taken ≠ 0 := by omega
  rw [spanSince_of_lt hlt]
  constructor
  · refine List.pairwise_cons.2 ⟨fun b hb => ?_, hrow.disjoint⟩
    obtain ⟨-, hfirst, -⟩ := hrow.within b hb
    exact (hs₁.lastEnd_lt h h0).trans_le hfirst
  · refine List.forall_mem_cons.2 ⟨?_, (hrow.later hs hs₁ h hlt.le).within⟩
    exact ⟨hlt.trans_le hle, le_refl _, hs₁.lastEnd_le hs' h h0 hle⟩

theorem standsIn {b : Block} (hrow : Row s b.statementSpans s') : b.StandsIn (s.spanSince s') := by
  refine ⟨hrow.disjoint, fun a ha => ?_⟩
  obtain ⟨hlt, hfirst, hlast⟩ := hrow.within a ha
  rw [spanSince_of_lt hlt]
  exact ⟨hfirst, hlast⟩

end Row

/-! ## Expressions and blocks -/

/-- A symbol that is missing stands where the token is that was found instead. -/
theorem span_symbolAhead (s : ParseState) : s.symbolAhead.span = s.ahead.span := by
  unfold symbolAhead
  split <;> rfl

section

variable (h : lexer.Ascends) (hfinal : lexer.final.token.lexeme = .mark .endOfFile)

include h hfinal

theorem standsIn_expr_cases :
    ParseM.ExprCases
      (fun _ _ s e _ => Along lexer s → ∀ a ∈ e.spans, a.StandsIn lexer lexer.begins)
      (fun _ s e _ => Along lexer s → ∀ a ∈ e.spans, a.StandsIn lexer lexer.begins)
      (fun begin _ lhs s e _ => Along lexer begin → begin.Leads s →
        (∀ a ∈ lhs.spans, a.StandsIn lexer lexer.begins) →
        ∀ a ∈ e.spans, a.StandsIn lexer lexer.begins) where
  ofOperand hl _ hO hR hs := hR hs hl (hO hs)
  var _ hs := List.forall_mem_cons.2
    ⟨hs.standsIn_ahead h, List.forall_mem_singleton.2 (hs.standsIn_ahead h)⟩
  int _ hs := List.forall_mem_singleton.2 (hs.standsIn_ahead h)
  bool _ hs := List.forall_mem_singleton.2 (hs.standsIn_ahead h)
  parenthesis ha _ hE hs := hE (hs.leads hfinal (.advance (by simp [ha])))
  unary {_ s s₁ op e} ha hl hE hs := by
    have hne : s.ahead.lexeme ≠ .mark .endOfFile := by simpa [ha] using op.mark_ne_endOfFile
    have hs₀ := hs.leads hfinal (.advance hne)
    have hnode := (hs₀.leads hfinal hl).standsIn_spanSince hs h hl.taken_lt.le
    exact List.forall_mem_cons.2 ⟨hnode, hE hs₀⟩
  hole _ hs := List.forall_mem_singleton.2 (hs.standsIn_ahead h)
  stop _ _ _ hlhs := hlhs
  step {begin s s₁ s₂ level op lhs rhs e} ha _ hl _ hE hR hbegin hlb hlhs := by
    have hne : s.ahead.lexeme ≠ .mark .endOfFile := by simpa [ha] using op.mark_ne_endOfFile
    have hs₀ := (hbegin.leads hfinal hlb).leads hfinal (.advance hne)
    have hl₁ := hlb.trans ((Leads.advance hne).trans hl)
    have hnode := (hs₀.leads hfinal hl).standsIn_spanSince hbegin h hl₁.taken_le
    refine hR hbegin (hl₁.trans (.numberNode s₁)) ?_
    exact List.forall_mem_cons.2 ⟨hnode, List.forall_mem_append.2 ⟨hlhs, hE hs₀⟩⟩

end

/-- What was read on the way stands in the source, statements one after the other, and so in the
bodies of loops. -/
structure ReadsBlock (lexer : Lexer) (s : ParseState) (b : Block) (s' : ParseState) : Prop where
  spans : ∀ a ∈ b.spans, a.StandsIn lexer lexer.begins
  row : Row s b.statementSpans s'
  bodies : ∀ l ∈ b.bodies, l.2.StandsIn l.1

section

variable (h : lexer.Ascends) (hfinal : lexer.final.token.lexeme = .mark .endOfFile)

include h hfinal

/-- A statement begins with a token of its own, so what is read behind it stands behind it. -/
theorem Row.statement {s₁ : ParseState} {stretches : List Span} (hs : Along lexer s)
    (ha : s.ahead.lexeme ≠ .mark .endOfFile) (hl : s.advance.Leads s₁) (hl' : s₁.Leads s')
    (hrow : Row s₁ stretches s') :
    (s.spanSince s₁).StandsIn lexer lexer.begins ∧ Row s (s.spanSince s₁ :: stretches) s' := by
  have hs₁ := hs.leads hfinal ((Leads.advance ha).trans hl)
  have hs' := hs₁.leads hfinal hl'
  exact ⟨hs₁.standsIn_spanSince hs h hl.taken_lt.le,
    hrow.cons hs hs₁ hs' h hl.taken_lt hl'.taken_le⟩

theorem readsBlock_cases :
    ParseM.BlockCases
      (fun _ s e _ => Along lexer s → ∀ a ∈ e.spans, a.StandsIn lexer lexer.begins)
      (fun s b s' => Along lexer s → ReadsBlock lexer s b s') where
  done {s} _ _ := ⟨List.forall_mem_nil _, .nil s s, List.forall_mem_nil _⟩
  semicolon {s s₁ b} ha hl hS hs := by
    have hs₀ := hs.leads hfinal (.advance (by simp [ha]))
    have hread := hS hs₀
    exact ⟨hread.spans, hread.row.later hs hs₀ h (Nat.le_succ _), hread.bodies⟩
  declare {s s₁ s₂ m ty init rest} ha hty hl hX hl₂ hS hs := by
    have hne := ahead_ne_endOfFile_of_type ha hty
    have hs₀ := hs.leads hfinal (.advance hne)
    have hbegin := Leads.beginDeclaration s
    have hend := (hbegin.trans hl).trans (.endDeclaration s₁)
    have hread := hS (hs₀.leads hfinal hend)
    obtain ⟨hnode, hrow⟩ := hread.row.statement h hfinal hs hne hend hl₂
    -- the name stands at the second token, be it one or not
    have hsymbol : s.advance.symbolAhead.span.StandsIn lexer lexer.begins := by
      rw [span_symbolAhead]
      exact hs₀.standsIn_ahead h
    have hinit := hX (hs₀.leads hfinal hbegin)
    refine ⟨List.forall_mem_cons.2 ⟨hnode, List.forall_mem_cons.2 ⟨hsymbol, ?_⟩⟩, hrow,
      hread.bodies⟩
    exact List.forall_mem_append.2 ⟨hinit, hread.spans⟩
  assign {s s₁ s₂ x value rest} ha hl hX hl₂ hS hs := by
    have hne : s.ahead.lexeme ≠ .mark .endOfFile := by simp [ha]
    have hs₀ := hs.leads hfinal (.advance hne)
    have hbegin := Leads.beginAssignment s
    have hend := (hbegin.trans hl).trans (.endAssignment s₁)
    have hread := hS (hs₀.leads hfinal hend)
    obtain ⟨hnode, hrow⟩ := hread.row.statement h hfinal hs hne hend hl₂
    have hsymbol := hs.standsIn_ahead h
    have hvalue := hX (hs₀.leads hfinal hbegin)
    refine ⟨List.forall_mem_cons.2 ⟨hnode, List.forall_mem_cons.2 ⟨hsymbol, ?_⟩⟩, hrow,
      hread.bodies⟩
    exact List.forall_mem_append.2 ⟨hvalue, hread.spans⟩
  loop {s s₁ s₂ s₃ cond body rest} ha hl hX hl₂ hB hl₃ hS hs := by
    have hne : s.ahead.lexeme ≠ .mark .endOfFile := by simp [ha]
    have hs₀ := hs.leads hfinal (.advance hne)
    have hopen := hl.trans (.expect (m := .braceL) (by simp) .loop s₁)
    have hend := (hopen.trans hl₂).trans (.endLoop s₂)
    have hs₁ := hs₀.leads hfinal hopen
    have hread := hS (hs₀.leads hfinal hend)
    obtain ⟨hnode, hrow⟩ := hread.row.statement h hfinal hs hne hend hl₃
    -- the body may have taken nothing, in which case its stretch is a single place
    have hlist := (hs₁.leads hfinal hl₂).standsIn_spanSince hs₁ h hl₂.taken_le
    have hcond := hX hs₀
    have hbody := hB hs₁
    refine ⟨List.forall_mem_cons.2 ⟨hnode, List.forall_mem_cons.2 ⟨hlist, ?_⟩⟩, hrow,
      List.forall_mem_cons.2 ⟨hbody.row.standsIn, ?_⟩⟩
    · exact List.forall_mem_append.2 ⟨hcond, List.forall_mem_append.2 ⟨hbody.spans, hread.spans⟩⟩
    · exact List.forall_mem_append.2 ⟨hbody.bodies, hread.bodies⟩

end

/-! ## Findings -/

/-- What was found is a stray character, or a fault of structure at one of the tokens. -/
def Finds (lexer : Lexer) (s : ParseState) : Prop :=
  ∀ d ∈ s.log.toList, d.isStray = true ∨
    ∃ t ∈ lexer.tokens, ∃ e c, d = ParseFault.diagnostic ⟨e, t, c⟩

theorem finds_start (lexer : Lexer) : Finds lexer (.start lexer .empty) := by
  intro d hd
  have hlog : (start lexer .empty).log.toList = lexer.next.1.strays.map (·.diagnostic) :=
    Log.toList_append ..
  exact .inl (isStray_of_mem_strays d (hlog ▸ hd))

theorem Finds.advance (hf : Finds lexer s) : Finds lexer s.advance := by
  unfold Finds
  rw [toList_log_advance, List.forall_mem_append]
  exact ⟨hf, fun d hd => .inl (isStray_of_mem_strays d hd)⟩

theorem Finds.report (hf : Finds lexer s) (hs : Along lexer s) (e : Expected) (c : ParseContext) :
    Finds lexer (s.report e c) := by
  unfold Finds
  rw [toList_log_report, List.forall_mem_append, List.forall_mem_singleton]
  exact ⟨hf, .inr ⟨s.ahead, List.mem_of_getElem? hs.ahead, e, c, rfl⟩⟩

theorem Finds.expect (hf : Finds lexer s) (hs : Along lexer s) (m : Mark) (c : ParseContext) :
    Finds lexer (s.expect m c) := by
  unfold ParseState.expect
  split
  · exact hf.advance
  · exact hf.report hs _ c

theorem Finds.leads (hf : Finds lexer s) (hs : Along lexer s)
    (hfinal : lexer.final.token.lexeme = .mark .endOfFile) (hl : s.Leads s') :
    Finds lexer s' := by
  induction hl with
  | stay => exact hf
  | thenAdvance _ _ ih => exact ih.advance
  | thenReport e c hl ih => exact ih.report (hs.leads hfinal hl) e c
  | thenNumberNode _ ih => exact ih
  | thenNumberDecl _ ih => exact ih

end ParseState

/-- What a lexer finds is shown where it hands the character out. -/
theorem Lexer.exists_span_of_mem_diagnostics {lexer : Lexer} {d : Diagnostic}
    (hd : d ∈ lexer.diagnostics) : ∃ a ∈ lexer.spans, d.spans = [a] := by
  obtain ⟨r, hr, hd⟩ := List.mem_flatMap.1 hd
  obtain ⟨s, hs, rfl⟩ := List.mem_map.1 hd
  refine ⟨s.span, List.mem_flatMap.2 ⟨r, hr, ?_⟩, rfl⟩
  exact List.mem_append_left _ (List.mem_map_of_mem hs)

namespace Program

/-- The tree of a source stands in it. -/
theorem readsBlock_ofSource (file : FileId) {source : Source} (hlt : source.length < 4294967295) :
    let lexer := Lexer.ofSource file source
    let p := (ofSource file source).1
    (∀ a ∈ p.spans, a.StandsIn lexer lexer.begins) ∧ ∀ l ∈ p.blocks, l.2.StandsIn l.1 := by
  intro lexer p
  have h : lexer.Ascends := Lexer.ascends_ofSource file hlt
  have hfinal : lexer.final.token.lexeme = .mark .endOfFile :=
    Lexer.lexeme_final_ofSource file source
  have hs : ParseState.Along lexer (.ofSource file source) := ParseState.along_start lexer
  obtain ⟨s₁, s₂, body, result, hl, hbody, hl₂, hresult, hrun⟩ :=
    (ParseState.readsBlock_cases h hfinal).program (ParseState.standsIn_expr_cases h hfinal)
      (ParseState.ends_ofSource file source)
  have hp : p = (ParseM.program.run (.ofSource file source)).1 := rfl
  rw [hp, hrun]
  have hread := hbody hs
  have hreturn := hl.trans (.expect (m := .return) (by simp) .program s₁)
  have hall := (hreturn.trans hl₂).trans (.expect (m := .semicolon) (by simp) .resultEnd s₂)
  have hspan := (hs.leads hfinal hall).standsIn_spanSince hs h hall.taken_le
  have hlist := (hs.leads hfinal hl).standsIn_spanSince hs h hl.taken_le
  have hresult := hresult (hs.leads hfinal hreturn)
  refine ⟨List.forall_mem_cons.2 ⟨hspan, List.forall_mem_cons.2 ⟨hlist, ?_⟩⟩, ?_⟩
  · exact List.forall_mem_append.2 ⟨hread.spans, hresult⟩
  · exact List.forall_mem_cons.2 ⟨hread.row.standsIn, hread.bodies⟩

/-- What is found in a source is a stray character of its lexer, or is found at a token. -/
theorem finds_ofSource (file : FileId) {source : Source} (hlt : source.length < 4294967295) :
    let lexer := Lexer.ofSource file source
    ∀ d ∈ (ofSource file source).2.toList, d ∈ lexer.diagnostics ∨
      ∃ t ∈ lexer.tokens, ∃ e c, d = ParseFault.diagnostic ⟨e, t, c⟩ := by
  intro lexer d hd
  have hfinal : lexer.final.token.lexeme = .mark .endOfFile :=
    Lexer.lexeme_final_ofSource file source
  have hplaces := Lexer.pairwise_places_ofSource file hlt
  have hs : ParseState.Along lexer (.ofSource file source) := ParseState.along_start lexer
  obtain ⟨s, hl, hlog⟩ := leads_ofSource file source
  rw [hlog] at hd
  have hfinds := ((ParseState.finds_start lexer).leads hs hfinal hl).expect
    (hs.leads hfinal hl) .endOfFile .programEnd
  rcases hfinds d hd with hstray | hfault
  · -- the stray characters that were reported are the first ones of the source
    have hreported := (ParseState.reported_start hplaces).leads hplaces hfinal hl
    obtain ⟨-, hfirst, -⟩ :=
      hreported.expect_endOfFile Lexer.ne_endOfFile_of_mem_upcoming .programEnd
    exact .inl (hfirst.subset (List.mem_filter.2 ⟨hd, hstray⟩))
  · exact .inr hfault

/-- **Every stretch of a parse is one of the source, whatever is wrong with it.** No stretch in the
tree ends before it begins or extends past the end of the file, and each begins where a token does,
those of findings also where a stray character stands. In every block the statements stand one
after the other, in the stretch of the block. -/
theorem standsIn_ofSource (file : FileId) (source : Source) (hlt : source.length < 4294967295) :
    let lexer := Lexer.ofSource file source
    let p := (ofSource file source).1
    let found := (ofSource file source).2.toList
    (∀ a ∈ p.spans, a.StandsIn lexer lexer.begins) ∧
      (∀ d ∈ found, ∀ a ∈ d.spans, a.StandsIn lexer lexer.places) ∧
      ∀ l ∈ p.blocks, l.2.StandsIn l.1 := by
  intro lexer p found
  have h : lexer.Ascends := Lexer.ascends_ofSource file hlt
  obtain ⟨hspans, hblocks⟩ := readsBlock_ofSource file hlt
  refine ⟨hspans, fun d hd => ?_, hblocks⟩
  have hshown : ∃ a ∈ lexer.spans, d.spans = [a] := by
    rcases finds_ofSource file hlt d hd with hstray | ⟨t, ht, e, c, rfl⟩
    · exact Lexer.exists_span_of_mem_diagnostics hstray
    · exact ⟨t.span, Lexer.Ascends.span_mem_spans ht, rfl⟩
  obtain ⟨a, ha, hd⟩ := hshown
  rw [hd, List.forall_mem_singleton]
  have hplace : a.first ∈ lexer.places := by
    rw [← Lexer.map_first_spans]
    exact List.mem_map_of_mem ha
  exact ⟨hplace, h.ordered a ha, h.last_le_final a ha⟩

/-- Missing names, values, braces and semicolons, at the end of the file and before it. -/
theorem standsIn_ofSource_broken :
    let source := Source.ofString "; int # = ; while x\n$ \x7b y ; while ! ( 2 * return"
    let lexer := Lexer.ofSource ⟨0⟩ source
    let p := (ofSource ⟨0⟩ source).1
    let found := (ofSource ⟨0⟩ source).2.toList
    source.length < 4294967295 ∧
      (∀ a ∈ p.spans, a.StandsIn lexer lexer.begins) ∧
      (∀ d ∈ found, ∀ a ∈ d.spans, a.StandsIn lexer lexer.places) ∧
      ∀ l ∈ p.blocks, l.2.StandsIn l.1 :=
  have h : (Source.ofString "; int # = ; while x\n$ \x7b y ; while ! ( 2 * return").length <
      4294967295 := by
    decide
  ⟨h, standsIn_ofSource ⟨0⟩ _ h⟩

end Program

end WhileLang
