import WhileLang.Proofs.Parser.Run
import WhileLang.Proofs.Tree.Numbers

/-!
# `WhileLang/Proofs/Parser/Whole.lean` — what is missing was complained about

A tree is **whole** when nothing in it stands for something missing: no expression is a hole, every
symbol is spelled like a name, and every declaration has one of the two types. A piece of the parser
that adds no complaint of its own kind to the log returns a whole tree, and the log never loses one;
so a source that is parsed without such a complaint has a whole tree.

Symbols need a word more than holes. A declared name that is missing is reported, but a name that is
read is taken as the lexer spells it, so wholeness also rests on the names that a source can spell
(`isName_of_mem`). That is the hypothesis `Named`.
-/

set_option autoImplicit false

namespace WhileLang

def Expr.Whole : Expr → Prop
  | .binary _ _ l r => l.Whole ∧ r.Whole
  | .unary _ _ e => e.Whole
  | .bool _ _ | .int _ _ => True
  | .var _ s => IsName s.name
  | .hole _ => False

def Block.Whole : Block → Prop
  | .done => True
  | .declare d rest =>
    d.init.Whole ∧ d.ty ≠ .unknown ∧ IsName d.symbol.name ∧ rest.Whole
  | .assign a rest => a.value.Whole ∧ IsName a.symbol.name ∧ rest.Whole
  | .loop w body rest => w.cond.Whole ∧ body.Whole ∧ rest.Whole

def Program.Whole (p : Program) : Prop :=
  p.body.Whole ∧ p.result.Whole

theorem Expr.Whole.holes {e : Expr} (h : e.Whole) : e.holes = 0 := by
  induction e with
  | binary n op l r ihl ihr => rw [Expr.holes, ihl h.1, ihr h.2]
  | unary n op e ih => exact ih h
  | hole n => exact h.elim
  | _ => rfl

theorem Block.Whole.holes {b : Block} (h : b.Whole) : b.holes = 0 := by
  induction b with
  | done => rfl
  | declare d rest ih => rw [Block.holes, h.1.holes, ih h.2.2.2]
  | assign a rest ih => rw [Block.holes, h.1.holes, ih h.2.2]
  | loop w body rest ihb ihr => rw [Block.holes, h.1.holes, ihb h.2.1, ihr h.2.2]

theorem Program.Whole.holes {p : Program} (h : p.Whole) : p.holes = 0 := by
  rw [Program.holes, h.1.holes, h.2.holes]

/-! ## Parts of whole trees -/

theorem Expr.Whole.of_mem_nodes {e x : Expr} (h : e.Whole) (hx : x ∈ e.nodes) : x.Whole := by
  induction e with
  | binary n op l r ihl ihr =>
    simp only [nodes, List.mem_append, List.mem_singleton] at hx
    rcases hx with (hx | hx) | rfl
    · exact ihl h.1 hx
    · exact ihr h.2 hx
    · exact h
  | unary n op e ih =>
    simp only [nodes, List.mem_append, List.mem_singleton] at hx
    rcases hx with hx | rfl
    · exact ih h hx
    · exact h
  | bool | int | var | hole =>
    simp only [nodes, List.mem_singleton] at hx
    exact hx ▸ h

theorem Block.Whole.of_mem_exprs {b : Block} {x : Expr} (h : b.Whole) (hx : x ∈ b.exprs) :
    x.Whole := by
  induction b with
  | done => simp [exprs] at hx
  | declare d rest ih => exact (List.mem_append.1 hx).elim h.1.of_mem_nodes (ih h.2.2.2)
  | assign a rest ih => exact (List.mem_append.1 hx).elim h.1.of_mem_nodes (ih h.2.2)
  | loop w body rest ihb ihr =>
    rw [exprs, List.mem_append, List.mem_append] at hx
    rcases hx with (hx | hx) | hx
    · exact h.1.of_mem_nodes hx
    · exact ihb h.2.1 hx
    · exact ihr h.2.2 hx

theorem Program.Whole.of_mem_exprs {p : Program} {x : Expr} (h : p.Whole) (hx : x ∈ p.exprs) :
    x.Whole :=
  (List.mem_append.1 hx).elim h.1.of_mem_exprs h.2.of_mem_nodes

theorem Block.Whole.of_mem_declarations {b : Block} {d : Declaration} (h : b.Whole)
    (hd : d ∈ b.declarations) : d.ty ≠ .unknown ∧ IsName d.symbol.name := by
  induction b with
  | done => simp [declarations] at hd
  | declare d' rest ih =>
    rcases List.mem_cons.1 hd with rfl | hd
    · exact ⟨h.2.1, h.2.2.1⟩
    · exact ih h.2.2.2 hd
  | assign a rest ih => exact ih h.2.2 hd
  | loop w body rest ihb ihr => exact (List.mem_append.1 hd).elim (ihb h.2.1) (ihr h.2.2)

theorem Block.Whole.of_mem_assignments {b : Block} {a : Assignment} (h : b.Whole)
    (ha : a ∈ b.assignments) : IsName a.symbol.name := by
  induction b with
  | done => simp [assignments] at ha
  | declare d rest ih => exact ih h.2.2.2 ha
  | assign a' rest ih =>
    rcases List.mem_cons.1 ha with rfl | ha
    · exact h.2.1
    · exact ih h.2.2 ha
  | loop w body rest ihb ihr => exact (List.mem_append.1 ha).elim (ihb h.2.1) (ihr h.2.2)

/-! ## Complaints about structure -/

theorem Log.countOf_push (log : Log) (kind : DiagnosticKind) (d : Diagnostic) :
    (log.push d).countOf kind =
      log.countOf kind + if d.severity = .error ∧ d.kind = kind then 1 else 0 := by
  simp [countOf, List.countP_append, List.countP_singleton]

theorem Log.countOf_append (log : Log) (kind : DiagnosticKind) (ds : List Diagnostic) :
    (log.append ds).countOf kind =
      log.countOf kind + ds.countP fun d => d.severity = .error ∧ d.kind = kind := by
  simp [countOf, List.countP_append]

/-- Stray characters are of another kind, so passing over them does not count. -/
theorem Log.countOf_append_strays (log : Log) (strays : List Stray) :
    (log.append (strays.map (·.diagnostic))).countOf .parse = log.countOf .parse := by
  have h : (strays.map (·.diagnostic)).countP
      (fun d => d.severity = .error ∧ d.kind = .parse) = 0 := by
    simp [List.countP_map, List.countP_eq_zero, Stray.diagnostic, Diagnostic.error]
  rw [countOf_append, h, Nat.add_zero]

theorem Log.countOf_le_errorCount (log : Log) (kind : DiagnosticKind) :
    log.countOf kind ≤ log.errorCount :=
  List.countP_mono_left (by simp +contextual)

namespace ParseState

/-- The number of complaints about structure. -/
def complaints (s : ParseState) : Nat := s.log.countOf .parse

theorem complaints_report (s : ParseState) (e : Expected) (c : ParseContext) :
    (s.report e c).complaints = s.complaints + 1 := by
  simp [complaints, report, Log.countOf_push, ParseFault.diagnostic, Diagnostic.error]

theorem complaints_advance (s : ParseState) : s.advance.complaints = s.complaints :=
  Log.countOf_append_strays ..

theorem complaints_ofSource (file : FileId) (source : Source) :
    (ofSource file source).complaints = 0 :=
  Log.countOf_append_strays ..

theorem complaints_expect (m : Mark) (c : ParseContext) (s : ParseState) :
    s.complaints ≤ (s.expect m c).complaints := by
  unfold expect
  split
  · exact (complaints_advance s).ge
  · exact complaints_report s _ c ▸ Nat.le_succ _

/-- The names to come are spelled like names. -/
def Named (s : ParseState) : Prop :=
  s.Ends ∧ ∀ x, .name x ∈ s.input → IsName x

theorem Leads.named {s s' : ParseState} (h : s.Leads s') (hn : s.Named) : s'.Named :=
  ⟨h.ends hn.1, fun x hx => hn.2 x ((h.input hn.1).subset hx)⟩

/-! ## What a way without complaints tells -/

/-- On the way no complaint was lost, and unless there are new ones, `told` holds. -/
structure Tells (s s' : ParseState) (told : Prop) : Prop where
  toLeads : s.Leads s'
  le : s.complaints ≤ s'.complaints
  told : s'.complaints = s.complaints → s.Named → told

namespace Tells

theorem trans {s s₁ s₂ : ParseState} {P Q : Prop} (h : s.Tells s₁ P) (h₁ : s₁.Tells s₂ Q) :
    s.Tells s₂ (P ∧ Q) where
  toLeads := h.toLeads.trans h₁.toLeads
  le := h.le.trans h₁.le
  told heq hn := by
    have hle := h.le
    have hle₁ := h₁.le
    exact ⟨h.told (by omega) hn, h₁.told (by omega) (h.toLeads.named hn)⟩

theorem imp {s s' : ParseState} {P Q : Prop} (h : s.Tells s' P) (f : P → Q) : s.Tells s' Q :=
  { h with told := fun heq hn => f (h.told heq hn) }

theorem refl (s : ParseState) : s.Tells s True := ⟨.refl s, Nat.le_refl _, fun _ _ => trivial⟩

theorem advance {s : ParseState} (ha : s.ahead.lexeme ≠ .mark .endOfFile) :
    s.Tells s.advance (∀ x, s.ahead.lexeme = .name x → IsName x) where
  toLeads := .advance ha
  le := (complaints_advance s).ge
  told _ hn x hx := hn.2 x (hx ▸ mem_input_ahead ha)

theorem report (s : ParseState) (e : Expected) (c : ParseContext) :
    s.Tells (s.report e c) False where
  toLeads := .report s e c
  le := complaints_report s e c ▸ Nat.le_succ _
  told heq := absurd heq (complaints_report s e c ▸ Nat.succ_ne_self _)

theorem numberNode (s : ParseState) : s.Tells s.numberNode True :=
  ⟨.numberNode s, Nat.le_refl _, fun _ _ => trivial⟩

theorem numberDecl (s : ParseState) : s.Tells s.numberDecl True :=
  ⟨.numberDecl s, Nat.le_refl _, fun _ _ => trivial⟩

theorem expect {m : Mark} (hm : m ≠ .endOfFile) (c : ParseContext) (s : ParseState) :
    s.Tells (s.expect m c) True := by
  unfold ParseState.expect
  split
  · rename_i ha
    exact (advance (by rw [ha]; simpa using hm)).imp fun _ => trivial
  · exact (report s _ c).imp False.elim

/-- A symbol that was read without complaint is a name. -/
theorem afterSymbol (c : ParseContext) (s : ParseState) :
    s.Tells (s.afterSymbol c) (IsName s.symbolAhead.name) := by
  unfold ParseState.afterSymbol symbolAhead
  split
  · rename_i x ha
    exact (advance (by simp [ha])).imp fun h => h x ha
  · exact (report s _ c).imp False.elim

theorem beginDeclaration (s : ParseState) :
    s.advance.Tells s.beginDeclaration (IsName s.advance.symbolAhead.name) :=
  ((afterSymbol .declaredName s.advance).trans (expect (m := .assign) (by simp) .declaration _)).imp
    And.left

end Tells

theorem tells_expr_cases : ParseM.ExprCases (fun _ _ s e s' => s.Tells s' e.Whole)
    (fun _ s e s' => s.Tells s' e.Whole)
    (fun _ _ lhs s e s' => s.Tells s' (lhs.Whole → e.Whole)) where
  ofOperand _ _ h h₁ := (h.trans h₁).imp fun ⟨hlhs, he⟩ => he hlhs
  var {_ s x} ha := ((Tells.advance (by simp [ha])).trans (.numberNode _)).imp fun h => h.1 x ha
  int ha := ((Tells.advance (by simp [ha])).trans (.numberNode _)).imp fun _ => trivial
  bool {_ _ b} ha :=
    ((Tells.advance (by cases b <;> simp [ha])).trans (.numberNode _)).imp fun _ => trivial
  parenthesis ha _ h :=
    (((Tells.advance (by simp [ha])).trans h).trans
      (.expect (m := .parenR) (by simp) .parenthesis _)).imp fun h => h.1.2
  unary {_ _ _ op _} ha _ h :=
    (((Tells.advance (by simpa [ha] using op.mark_ne_endOfFile)).trans h).trans
      (.numberNode _)).imp fun h => h.1.2
  hole {_ s} _ := ((Tells.report s _ _).trans (.numberNode _)).imp fun h => h.1.elim
  stop {_ s _ _} _ := (Tells.refl s).imp fun _ => id
  step {_ _ _ _ _ op _ _ _} ha _ _ _ h h₁ :=
    (((Tells.advance (by simpa [ha] using op.mark_ne_endOfFile)).trans h).trans
      ((Tells.numberNode _).trans h₁)).imp fun h hlhs => h.2.2 ⟨hlhs, h.1.2⟩

theorem tells_block_cases : ParseM.BlockCases (fun _ s e s' => s.Tells s' e.Whole)
    (fun s b s' => s.Tells s' b.Whole) where
  done _ := (Tells.refl _).imp fun _ => trivial
  semicolon ha _ h := ((Tells.advance (by simp [ha])).trans h).imp And.right
  declare := by
    intro s s₁ s₂ m ty init rest ha hty _ h _ h₁
    have hne := ahead_ne_endOfFile_of_type ha hty
    have hknown : ty ≠ .unknown := by
      rintro rfl
      cases m <;> simp [Ty.ofMark?] at hty
    have hend := (Tells.expect (m := .semicolon) (by simp) .declarationEnd s₁).trans
      ((Tells.numberDecl _).trans (.numberNode _))
    exact (((((Tells.advance hne).trans (.beginDeclaration s)).trans h).trans hend).trans h₁).imp
      fun h => ⟨h.1.1.2, hknown, h.1.1.1.2, h.2⟩
  assign := by
    intro s s₁ s₂ x value rest ha _ h _ h₁
    have hbegin := (Tells.advance (s := s) (by simp [ha])).trans
      (.expect (m := .assign) (by simp) .assignment _)
    have hend := (Tells.expect (m := .semicolon) (by simp) .assignmentEnd s₁).trans (.numberNode _)
    exact (((hbegin.trans h).trans hend).trans h₁).imp fun h =>
      ⟨h.1.1.2, h.1.1.1.1 x ha, h.2⟩
  loop := by
    intro s s₁ s₂ s₃ cond body rest ha _ h _ h₁ _ h₂
    have hcond := ((Tells.advance (s := s) (by simp [ha])).trans h).trans
      (.expect (m := .braceL) (by simp) .loop _)
    have hend := (Tells.expect (m := .braceR) (by simp) .loop s₂).trans (.numberNode _)
    exact (((hcond.trans h₁).trans hend).trans h₂).imp fun h => ⟨h.1.1.1.1.2, h.1.1.2, h.2⟩

end ParseState

/-- **A source that is parsed without a complaint about its structure has a whole tree.** -/
theorem Program.whole_ofSource {file : FileId} {source : Source}
    (h : (ofSource file source).2.countOf .parse = 0) : (ofSource file source).1.Whole := by
  have he := ParseState.ends_ofSource file source
  have hn : (ParseState.ofSource file source).Named :=
    ⟨he, fun x hx => isName_of_mem (ParseState.input_ofSource file source ▸ hx)⟩
  obtain ⟨s₁, s₂, body, result, -, hbody, -, hresult, hp⟩ :=
    ParseState.tells_block_cases.program ParseState.tells_expr_cases he
  have hall := ((hbody.trans (.expect (m := .return) (by simp) .program s₁)).trans hresult).trans
    (.expect (m := .semicolon) (by simp) .resultEnd s₂)
  have hrun : ofSource file source = ((ParseM.program.run (.ofSource file source)).1,
    (ParseM.program.run (.ofSource file source)).2.log) := rfl
  rw [hrun, hp] at h ⊢
  have hle := ParseState.complaints_expect .endOfFile .programEnd
    (s₂.expect .semicolon .resultEnd)
  have hle' := hall.le
  -- the complaints at the end are none, and no way loses one, so there were none at any time
  have hnone : (s₂.expect .semicolon .resultEnd).complaints = 0 := by
    have : ((s₂.expect .semicolon .resultEnd).expect .endOfFile .programEnd).complaints = 0 := h
    omega
  obtain ⟨⟨⟨hb, -⟩, hr⟩, -⟩ := hall.told (by omega) hn
  exact ⟨hb, hr⟩

/-! ## Types of declarations -/

namespace ParseState

theorem typed_block_cases : ParseM.BlockCases (fun _ _ _ _ => True)
    (fun _ b _ => ∀ d ∈ b.declarations, d.ty ≠ .unknown) where
  done _ := by simp [Block.declarations]
  semicolon _ _ h := h
  declare := by
    intro s s₁ s₂ m ty init rest _ hty _ _ _ h
    rw [Block.declarations, List.forall_mem_cons]
    refine ⟨?_, h⟩
    rintro rfl
    cases m <;> simp [Ty.ofMark?] at hty
  assign _ _ _ _ h := h
  loop := by
    intro s s₁ s₂ s₃ cond body rest _ _ _ _ hbody _ hrest
    rw [Block.declarations, List.forall_mem_append]
    exact ⟨hbody, hrest⟩

end ParseState

/-- A declaration begins with its type, so whatever else is missing in it, the type is there. -/
theorem Program.ty_ne_unknown_ofSource (file : FileId) (source : Source) :
    ∀ d ∈ (ofSource file source).1.body.declarations, d.ty ≠ .unknown := by
  have he := ParseState.ends_ofSource file source
  obtain ⟨s₁, s₂, body, result, -, hbody, -, -, hp⟩ :=
    ParseState.typed_block_cases.program .any he
  have hrun : (ofSource file source).1 = (ParseM.program.run (.ofSource file source)).1 := rfl
  rw [hrun, hp]
  exact hbody

end WhileLang
