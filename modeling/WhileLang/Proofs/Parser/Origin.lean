import WhileLang.Proofs.Diagnostic.Lines
import WhileLang.Proofs.Parser.Run
import WhileLang.Proofs.Token.Tiling
import WhileLang.Proofs.Tree.Canonical

/-!
# `WhileLang/Proofs/Parser/Origin.lean` — everything comes from the file

A lexer gives every token, and every stray character, a place in its file; a name among its tokens
is spelled like one, and no stray character is a newline. The parser only passes this on: **whatever
is wrong with a source, every place in its tree is in its file, every symbol is a name or stands for
a missing one** (`Program.inFile_ofSource`), and what is found is about the file and said in one
line (`Program.log_inFile_ofSource`).
-/

set_option autoImplicit false

namespace WhileLang

variable {f : FileId}

/-! ## Tokens and trees of a file -/

structure Token.InFile (f : FileId) (t : Token) : Prop where
  span : t.span.file = f
  name : ∀ x, t.lexeme = .name x → IsName x

structure Stray.InFile (f : FileId) (s : Stray) : Prop where
  span : s.span.file = f
  char : s.char ≠ '\n'

structure Reading.InFile (f : FileId) (r : Reading) : Prop where
  token : r.token.InFile f
  strays : ∀ s ∈ r.strays, s.InFile f

/-- A symbol that was read, and not put in the place of a missing one. -/
structure Symbol.ReadIn (f : FileId) (s : Symbol) : Prop where
  span : s.span.file = f
  name : IsName s.name

def Symbol.InFile (f : FileId) (s : Symbol) : Prop :=
  s.ReadIn f ∨ s.span.file = f ∧ s.isError = true

def Expr.InFile (f : FileId) : Expr → Prop
  | .binary n _ l r => n.span.file = f ∧ l.InFile f ∧ r.InFile f
  | .unary n _ e => n.span.file = f ∧ e.InFile f
  | .bool n _ | .int n _ | .hole n => n.span.file = f
  | .var n s => n.span.file = f ∧ s.ReadIn f

def Block.InFile (f : FileId) : Block → Prop
  | .done => True
  | .declare d rest => d.node.span.file = f ∧ d.symbol.InFile f ∧ d.init.InFile f ∧ rest.InFile f
  | .assign a rest => a.node.span.file = f ∧ a.symbol.ReadIn f ∧ a.value.InFile f ∧ rest.InFile f
  | .loop w body rest =>
    w.node.span.file = f ∧ w.bodySpan.file = f ∧ w.cond.InFile f ∧ body.InFile f ∧ rest.InFile f

structure Program.InFile (f : FileId) (p : Program) : Prop where
  span : p.span.file = f
  bodySpan : p.bodySpan.file = f
  body : p.body.InFile f
  result : p.result.InFile f

theorem Expr.InFile.span {e : Expr} (h : e.InFile f) : e.span.file = f := by
  cases e with
  | binary | unary | var => exact h.1
  | bool | int | hole => exact h

/-! ## Texts without line breaks -/

theorem IsName.oneLine {x : String} (h : IsName x) : OneLine x := by
  obtain ⟨c, more, hx, hc, hmore, -⟩ := h
  rw [OneLine, hx, List.mem_cons]
  rintro (rfl | hmem)
  · cases hc
  · cases hmore _ hmem

theorem Mark.oneLine_text (m : Mark) : OneLine m.text := by
  cases m <;> decide

theorem BinaryOp.oneLine_text (op : BinaryOp) : OneLine op.text :=
  op.mark.oneLine_text

theorem Token.InFile.oneLine_text {t : Token} (h : t.InFile f) : OneLine t.lexeme.text := by
  cases hl : t.lexeme with
  | mark m => exact m.oneLine_text
  | name x => exact (h.name x hl).oneLine
  | literal v =>
    rw [OneLine, Lexeme.text, toList_toString_int64]
    split
    · simp [newline_notMem_digits]
    · exact newline_notMem_digits _

theorem Stray.InFile.diagnostic {s : Stray} (h : s.InFile f) : s.diagnostic.InFile f := by
  have hchar : OneLine (String.singleton s.char) := by
    simpa [OneLine] using h.char.symm
  refine Diagnostic.inFile_error _ h.span ?_
  simp only [oneLine_append]
  refine ⟨⟨⟨by decide, hchar⟩, by decide⟩, ?_⟩
  split <;> decide

theorem ParseContext.oneLine_text (c : ParseContext) : OneLine c.text := by
  cases c with
  | rightOperand op =>
    show OneLine ("right-hand side of operator '" ++ op.text ++ "'")
    simp only [oneLine_append, op.oneLine_text]
    decide
  | _ => decide

theorem Expected.oneLine_text (e : Expected) : OneLine e.text := by
  cases e with
  | mark m =>
    show OneLine ("'" ++ m.text ++ "'")
    simp only [oneLine_append, m.oneLine_text]
    decide
  | name | operand => decide

theorem ParseFault.inFile_diagnostic {fault : ParseFault} (h : fault.found.InFile f) :
    fault.diagnostic.InFile f := by
  refine Diagnostic.inFile_error _ h.span ?_
  simp only [oneLine_append, h.oneLine_text, Expected.oneLine_text, ParseContext.oneLine_text]
  decide

/-! ## The lexer -/

theorem ne_newline_of_stray {text : List Char} {c : Char} (h : .stray c ∈ pieces text) :
    c ≠ '\n' := by
  obtain ⟨d, rest, hp⟩ := exists_of_mem_pieces h
  obtain ⟨rfl, hinvalid⟩ := isInvalid_of_ofText hp.symm
  rintro rfl
  exact not_isInvalid_of_isBlank (by decide) rest hinvalid

namespace Lexer

theorem inFile_passing {s : Stray} (hs : s.InFile f) {lexer : Lexer}
    (h : ∀ r ∈ lexer.readings, r.InFile f) : ∀ r ∈ (passing s lexer).readings, r.InFile f := by
  have hadd {r : Reading} (hr : r.InFile f) :
      Reading.InFile f { r with strays := s :: r.strays } :=
    ⟨hr.token, List.forall_mem_cons.2 ⟨hs, hr.strays⟩⟩
  unfold passing readings at *
  cases hu : lexer.upcoming with
  | nil =>
    rw [hu, List.nil_append, List.forall_mem_singleton] at h
    simp only [List.nil_append, List.forall_mem_singleton]
    exact hadd h
  | cons r rs =>
    rw [hu, List.cons_append, List.forall_mem_cons] at h
    simp only [List.cons_append, List.forall_mem_cons]
    exact ⟨hadd h.1, h.2⟩

theorem inFile_ofPieces (p : Position) {ps : List Piece} (hstray : ∀ c, .stray c ∈ ps → c ≠ '\n')
    (hname : ∀ x, .name x ∈ ps.filterMap Piece.lexeme? → IsName x) :
    ∀ r ∈ (ofPieces f p ps).readings, r.InFile f := by
  induction ps generalizing p with
  | nil =>
    rw [ofPieces, readings, List.nil_append, List.forall_mem_singleton]
    exact ⟨⟨rfl, fun x hx => by cases hx⟩, List.forall_mem_nil _⟩
  | cons piece ps ih =>
    have hstray' : ∀ c, .stray c ∈ ps → c ≠ '\n' := fun c hc => hstray c (List.mem_cons_of_mem _ hc)
    cases piece with
    | blank c => exact ih _ hstray' hname
    | stray c =>
      have hc : Stray.InFile f ⟨c, .point f p⟩ := ⟨rfl, hstray c (List.mem_cons_self ..)⟩
      exact inFile_passing hc (ih _ hstray' hname)
    | token spelling l =>
      have hname' := List.forall_mem_cons.1 (fun l hl x hx => hname x (hx ▸ hl) :
        ∀ l' ∈ l :: ps.filterMap Piece.lexeme?, ∀ x, l' = .name x → IsName x)
      rw [ofPieces, readings, List.cons_append, List.forall_mem_cons]
      exact ⟨⟨⟨rfl, hname'.1⟩, List.forall_mem_nil _⟩, ih _ hstray' fun x hx => hname'.2 _ hx x rfl⟩

theorem inFile_ofSource (source : Source) :
    ∀ r ∈ (ofSource f source).readings, r.InFile f :=
  inFile_ofPieces _ (fun _ => ne_newline_of_stray) fun _ => isName_of_mem

/-- What is handed out is in the file, and so is what is left. -/
theorem inFile_next {lexer : Lexer} (h : ∀ r ∈ lexer.readings, r.InFile f) :
    lexer.next.1.InFile f ∧ ∀ r ∈ lexer.next.2.readings, r.InFile f := by
  unfold next readings at *
  cases hu : lexer.upcoming with
  | nil =>
    rw [hu, List.nil_append, List.forall_mem_singleton] at h
    simp only [List.nil_append, List.forall_mem_singleton]
    exact ⟨h, h.token, List.forall_mem_nil _⟩
  | cons r rs =>
    rw [hu, List.cons_append, List.forall_mem_cons] at h
    exact h

end Lexer

/-! ## The parser -/

namespace ParseState

variable {s s' : ParseState}

/-- What is ahead, what is to come and what was found is in the file. -/
structure InFile (f : FileId) (s : ParseState) : Prop where
  ahead : s.ahead.InFile f
  readings : ∀ r ∈ s.lexer.readings, r.InFile f
  log : ∀ d ∈ s.log.toList, d.InFile f

theorem inFile_log {log : Log} (hlog : ∀ d ∈ log.toList, d.InFile f) {r : Reading}
    (hr : r.InFile f) : ∀ d ∈ (log.append (r.strays.map (·.diagnostic))).toList, d.InFile f := by
  rw [Log.toList_append, List.forall_mem_append, List.forall_mem_map]
  exact ⟨hlog, fun x hx => (hr.strays x hx).diagnostic⟩

theorem inFile_ofSource (source : Source) : (ofSource f source).InFile f := by
  obtain ⟨hfirst, hrest⟩ := Lexer.inFile_next (Lexer.inFile_ofSource (f := f) source)
  have hempty : ∀ d ∈ Log.empty.toList, d.InFile f := by simp
  exact ⟨hfirst.token, hrest, inFile_log hempty hfirst⟩

theorem InFile.advance (h : s.InFile f) : s.advance.InFile f := by
  obtain ⟨hnext, hrest⟩ := Lexer.inFile_next h.readings
  exact ⟨hnext.token, hrest, inFile_log h.log hnext⟩

theorem InFile.report (h : s.InFile f) (e : Expected) (c : ParseContext) :
    (s.report e c).InFile f := by
  refine ⟨h.ahead, h.readings, ?_⟩
  rw [ParseState.report, Log.toList_push, List.forall_mem_append, List.forall_mem_singleton]
  exact ⟨h.log, ParseFault.inFile_diagnostic h.ahead⟩

/-- **Every step of the parser stays in the file.** -/
theorem InFile.leads (h : s.InFile f) (hl : s.Leads s') : s'.InFile f := by
  induction hl with
  | stay => exact h
  | thenAdvance _ _ ih => exact ih.advance
  | thenReport e c _ ih => exact ih.report e c
  | thenNumberNode _ ih => exact ⟨ih.ahead, ih.readings, ih.log⟩
  | thenNumberDecl _ ih => exact ⟨ih.ahead, ih.readings, ih.log⟩

theorem InFile.expect (h : s.InFile f) (m : Mark) (c : ParseContext) : (s.expect m c).InFile f := by
  unfold ParseState.expect
  split
  · exact h.advance
  · exact h.report _ c

/-- A missing symbol gets the place of what is there instead. -/
theorem InFile.symbolAhead (h : s.InFile f) : s.symbolAhead.InFile f := by
  unfold ParseState.symbolAhead
  split
  · rename_i x ha
    exact .inl ⟨h.ahead.span, h.ahead.name x ha⟩
  · exact .inr ⟨h.ahead.span, rfl⟩

/-- A stretch that ends here is in the file, wherever it began. -/
theorem InFile.spanSince (h : s.InFile f) (begin : ParseState) :
    (begin.spanSince s).file = f := by
  unfold ParseState.spanSince
  split <;> exact h.ahead.span

theorem inFile_expr_cases : ParseM.ExprCases (fun _ _ s e _ => s.InFile f → e.InFile f)
    (fun _ s e _ => s.InFile f → e.InFile f)
    (fun _ _ lhs s e _ => s.InFile f → lhs.InFile f → e.InFile f) where
  ofOperand hl _ hO hR h := hR (h.leads hl) (hO h)
  var ha h := ⟨h.ahead.span, h.ahead.span, h.ahead.name _ ha⟩
  int _ h := h.ahead.span
  bool _ h := h.ahead.span
  parenthesis _ _ hE h := hE h.advance
  unary _ hl hE h := ⟨(h.advance.leads hl).spanSince _, hE h.advance⟩
  hole _ h := h.ahead.span
  stop _ _ hlhs := hlhs
  step {_ _ s₁ _ _ _ _ _ _} _ _ hl _ hE hR h hlhs := by
    have h₁ := h.advance.leads hl
    exact hR (h₁.leads (.numberNode s₁)) ⟨h₁.spanSince _, hlhs, hE h.advance⟩

theorem inFile_block_cases : ParseM.BlockCases (fun _ s e _ => s.InFile f → e.InFile f)
    (fun s b _ => s.InFile f → b.InFile f) where
  done _ _ := trivial
  semicolon _ _ hS h := hS h.advance
  declare {s _ _ _ _ _ _} _ _ hl hX _ hS h := by
    have hbegin := h.advance.leads (.beginDeclaration s)
    have hend := (hbegin.leads hl).expect .semicolon .declarationEnd
    have hnext := (hend.leads (.numberDecl _)).leads (.numberNode _)
    exact ⟨hend.spanSince _, h.advance.symbolAhead, hX hbegin, hS hnext⟩
  assign {s _ _ _ _ _} ha hl hX _ hS h := by
    have hbegin := h.advance.leads (.beginAssignment s)
    have hend := (hbegin.leads hl).expect .semicolon .assignmentEnd
    exact ⟨hend.spanSince _, ⟨h.ahead.span, h.ahead.name _ ha⟩, hX hbegin,
      hS (hend.leads (.numberNode _))⟩
  loop _ hl hX hl₁ hB _ hS h := by
    have hopen := (h.advance.leads hl).expect .braceL .loop
    have hclose := (hopen.leads hl₁).expect .braceR .loop
    exact ⟨hclose.spanSince _, (hopen.leads hl₁).spanSince _, hX h.advance, hB hopen,
      hS (hclose.leads (.numberNode _))⟩

end ParseState

namespace Program

/-- **Every place in a tree is in the file it was read from**, and every symbol is a name or stands
for a missing one. -/
theorem inFile_ofSource (file : FileId) (source : Source) :
    (ofSource file source).1.InFile file := by
  obtain ⟨s₁, s₂, body, result, hl, hbody, hl₁, hresult, hrun⟩ :=
    ParseState.inFile_block_cases.program ParseState.inFile_expr_cases
      (ParseState.ends_ofSource file source)
  have hstart := ParseState.inFile_ofSource (f := file) source
  have hreturn := (hstart.leads hl).expect .return .program
  have hend := (hreturn.leads hl₁).expect .semicolon .resultEnd
  have hsource : (ofSource file source).1 = (ParseM.program.run (.ofSource file source)).1 := rfl
  rw [hsource, hrun]
  exact ⟨hend.spanSince _, (hstart.leads hl).spanSince _, hbody hstart, hresult hreturn⟩

/-- **What is found is about the file**, and is said in one line. -/
theorem log_inFile_ofSource (file : FileId) (source : Source) :
    ∀ d ∈ (ofSource file source).2.toList, d.InFile file := by
  obtain ⟨s, hl, hlog⟩ := leads_ofSource file source
  have hend := (ParseState.inFile_ofSource (f := file) source).leads hl
  rw [hlog]
  exact (hend.expect _ _).log

end Program

end WhileLang
