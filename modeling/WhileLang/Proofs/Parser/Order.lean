import Mathlib.Data.List.Infix
import WhileLang.Proofs.Parser.Progress
import WhileLang.Proofs.Token.Ascending

/-!
# `WhileLang/Proofs/Parser/Order.lean` — a parse reports in the order of the source

Two kinds of findings get into the log of a parse in two ways: a stray character when the token
behind it is pulled, a fault of structure when a production fails, at any depth and any number of
times at one token. **They are in the order of the source all the same**
(`Program.inOrder_ofSource`), since neither is reported before the token ahead stands behind it.

The parser stops where the program ends for it, and that may be long before the end of the file. So
of the stray characters of the source it reports those up to there: all of them, if it has nothing
to say about structure.
-/

set_option autoImplicit false

namespace WhileLang

/-! ## Findings and tokens of a lexer, in their order -/

namespace Lexer

/-- Stray characters stand in their order, so their findings do. -/
theorem pairwise_diagnostics {lexer : Lexer} (h : lexer.places.Pairwise (· < ·)) :
    lexer.diagnostics.Pairwise fun d e => d.span.first < e.span.first := by
  have hsub : (lexer.diagnostics.map (·.span.first)).Sublist lexer.places := by
    unfold diagnostics places
    rw [List.map_flatMap]
    apply List.Sublist.flatMap_right
    intro r _
    rw [List.map_map]
    exact List.sublist_append_left ..
  exact List.pairwise_map.1 (h.sublist hsub)

/-- From one token on, what the next reading passes over and its token stand in their order. -/
theorem pairwise_places_next {lexer : Lexer} (h : lexer.places.Pairwise (· < ·)) {n : Nat}
    {t : Token} {r : Reading} (ht : lexer.tokens[n]? = some t)
    (hr : lexer.readings[n + 1]? = some r) :
    (t.span.first :: r.places).Pairwise (· < ·) := by
  rw [getElem?_tokens, Option.map_eq_some_iff] at ht
  obtain ⟨r', hr', rfl⟩ := ht
  have hpair : [r', r].Sublist lexer.readings := by
    have hdrop : lexer.readings.drop n = r' :: r :: lexer.readings.drop (n + 2) := by
      rw [List.drop_eq_getElem?_toList_append, hr', List.drop_eq_getElem?_toList_append, hr]
      rfl
    have hsub := List.drop_sublist n lexer.readings
    rw [hdrop] at hsub
    exact (((List.nil_sublist _).cons_cons r).cons_cons r').trans hsub
  have hplaces := h.sublist (hpair.flatMap Reading.places)
  rw [List.flatMap_cons, List.flatMap_singleton] at hplaces
  have hlast : [r'.token.span.first].Sublist r'.places := List.sublist_append_right ..
  exact hplaces.sublist (hlast.append (.refl _))

theorem take_one_readings (lexer : Lexer) : lexer.readings.take 1 = [lexer.next.1] := by
  unfold readings next
  cases lexer.upcoming <;> rfl

/-- What is handed out last leaves nothing to be passed over after it. -/
theorem strays_final_next {lexer : Lexer} (h : lexer.upcoming = []) :
    lexer.next.2.final.strays = [] := by
  unfold next
  rw [h]

end Lexer

/-! ## What the log has of the source -/

/-- A finding about a character that belongs to no token. -/
def Diagnostic.isStray (d : Diagnostic) : Bool := d.kind = .stray

theorem isStray_of_mem_strays {strays : List Stray} :
    ∀ d ∈ strays.map (·.diagnostic), d.isStray = true := by
  rw [List.forall_mem_map]
  intro s _
  rfl

theorem filter_isStray_strays (strays : List Stray) :
    (strays.map (·.diagnostic)).filter Diagnostic.isStray = strays.map (·.diagnostic) :=
  List.filter_eq_self.2 isStray_of_mem_strays

/-- Two ascending stretches that meet in one place ascend as a whole. -/
theorem pairwise_le_append {α : Type} [Preorder α] {as bs : List α} {a : α}
    (h : (as ++ [a]).Pairwise (· ≤ ·)) (h' : (a :: bs).Pairwise (· ≤ ·)) :
    (as ++ bs).Pairwise (· ≤ ·) := by
  obtain ⟨has, -, hle⟩ := List.pairwise_append.1 h
  obtain ⟨hle', hbs⟩ := List.pairwise_cons.1 h'
  refine List.pairwise_append.2 ⟨has, hbs, ?_⟩
  intro x hx y hy
  exact (hle x hx a (List.mem_singleton_self a)).trans (hle' y hy)

namespace ParseState

variable {lexer : Lexer} {s s' : ParseState}

theorem toList_log_advance (s : ParseState) : s.advance.log.toList =
    s.log.toList ++ s.lexer.next.1.strays.map (·.diagnostic) :=
  Log.toList_append ..

theorem toList_log_report (s : ParseState) (e : Expected) (c : ParseContext) :
    (s.report e c).log.toList = s.log.toList ++ [ParseFault.diagnostic ⟨e, s.ahead, c⟩] :=
  Log.toList_push ..

/-- Where the findings begin, and after them the token ahead. -/
def places (s : ParseState) : List Position :=
  s.log.toList.map (·.span.first) ++ [s.ahead.span.first]

theorem places_advance (s : ParseState) : s.advance.places =
    s.log.toList.map (·.span.first) ++ s.lexer.next.1.places := by
  rw [places, toList_log_advance, List.map_append, List.map_map, List.append_assoc]
  rfl

/-- A fault of structure is found where the token ahead begins. -/
theorem places_report (s : ParseState) (e : Expected) (c : ParseContext) :
    (s.report e c).places =
      s.log.toList.map (·.span.first) ++ [s.ahead.span.first, s.ahead.span.first] := by
  rw [places, toList_log_report, List.map_append, List.append_assoc]
  rfl

/-- What was reported is in order, and of the stray characters it is those before the token
ahead. -/
structure Reported (lexer : Lexer) (s : ParseState) : Prop where
  along : Along lexer s
  strays : s.log.toList.filter Diagnostic.isStray =
    (lexer.readings.take (s.taken + 1)).flatMap fun r => r.strays.map (·.diagnostic)
  /-- Once the end of the file is ahead, nothing is left to be passed over. -/
  drained : s.taken = lexer.upcoming.length → s.lexer.final.strays = []
  inOrder : s.places.Pairwise (· ≤ ·)

theorem reported_start (h : lexer.places.Pairwise (· < ·)) :
    Reported lexer (.start lexer .empty) where
  along := along_start lexer
  strays := by
    have hlog : (start lexer .empty).log.toList = lexer.next.1.strays.map (·.diagnostic) := by
      exact Log.toList_append ..
    have htaken : lexer.readings.take ((start lexer .empty).taken + 1) = [lexer.next.1] :=
      lexer.take_one_readings
    rw [hlog, htaken, filter_isStray_strays, List.flatMap_singleton]
  drained hzero := by
    apply Lexer.strays_final_next
    exact List.eq_nil_of_length_eq_zero hzero.symm
  inOrder := by
    have hmem : lexer.next.1 ∈ lexer.readings := by
      apply List.mem_of_mem_take (i := 1)
      rw [Lexer.take_one_readings]
      exact List.mem_singleton_self _
    have hplaces : (start lexer .empty).places = lexer.next.1.places := by
      show ((Log.empty.append _).toList.map _) ++ _ = _
      rw [Log.toList_append, Log.toList_empty, List.nil_append, List.map_map]
      rfl
    rw [hplaces]
    exact ((List.pairwise_flatMap.1 h).1 _ hmem).imp le_of_lt

theorem Reported.report (h : Reported lexer s) (e : Expected) (c : ParseContext) :
    Reported lexer (s.report e c) where
  along := h.along.report e c
  strays := by
    rw [toList_log_report, List.filter_append, h.strays]
    exact List.append_nil _
  drained := h.drained
  inOrder := by
    rw [places_report]
    exact pairwise_le_append h.inOrder (by simp)

theorem Reported.advance (h : Reported lexer s) (hplaces : lexer.places.Pairwise (· < ·))
    (hlt : s.taken < lexer.upcoming.length) : Reported lexer s.advance where
  along := h.along.advance hlt
  strays := by
    obtain ⟨hnext, -, -⟩ := h.along.next hlt
    have htaken : lexer.readings.take (s.advance.taken + 1) =
        lexer.readings.take (s.taken + 1) ++ [s.lexer.next.1] := by
      show lexer.readings.take (s.taken + 1 + 1) = _
      rw [List.take_add_one (i := s.taken + 1), hnext]
      rfl
    rw [toList_log_advance, List.filter_append, h.strays, filter_isStray_strays, htaken,
      List.flatMap_append, List.flatMap_singleton]
  drained heq := by
    have hdrop := h.along.upcoming
    rw [List.drop_eq_nil_of_le (show lexer.upcoming.length ≤ s.taken + 1 from heq.ge)] at hdrop
    exact Lexer.strays_final_next hdrop
  inOrder := by
    obtain ⟨hnext, -, -⟩ := h.along.next hlt
    have hascend := Lexer.pairwise_places_next hplaces h.along.ahead hnext
    rw [places_advance]
    exact pairwise_le_append h.inOrder (hascend.imp le_of_lt)

/-- **Every step of the parser reports in order.** -/
theorem Reported.leads (h : Reported lexer s) (hplaces : lexer.places.Pairwise (· < ·))
    (hfinal : lexer.final.token.lexeme = .mark .endOfFile) (hl : s.Leads s') :
    Reported lexer s' := by
  induction hl with
  | stay => exact h
  | thenAdvance _ ha ih => exact ih.advance hplaces (ih.along.taken_lt hfinal ha)
  | thenReport e c _ ih => exact ih.report e c
  | thenNumberNode _ ih =>
    exact ⟨ih.along.leads hfinal (.numberNode _), ih.strays, ih.drained, ih.inOrder⟩
  | thenNumberDecl _ ih =>
    exact ⟨ih.along.leads hfinal (.numberDecl _), ih.strays, ih.drained, ih.inOrder⟩

/-- The stray characters that were reported are the first ones of the source. -/
theorem Reported.strays_prefix (h : Reported lexer s) :
    s.log.toList.filter Diagnostic.isStray <+: lexer.diagnostics := by
  rw [h.strays]
  exact List.IsPrefix.flatMap (List.take_prefix ..) _

/-- At the end of the file all of them were reported, and to take that reports nothing more. -/
theorem Reported.strays_eq (h : Reported lexer s)
    (hopen : ∀ r ∈ lexer.upcoming, r.token.lexeme ≠ .mark .endOfFile)
    (ha : s.ahead.lexeme = .mark .endOfFile) :
    s.log.toList.filter Diagnostic.isStray = lexer.diagnostics ∧
      s.advance.log.toList = s.log.toList := by
  have hlen := h.along.taken_eq hopen ha
  constructor
  · have hall : lexer.readings.take (s.taken + 1) = lexer.readings := by
      apply List.take_of_length_le
      rw [Lexer.readings, List.length_append, List.length_singleton, hlen]
    rw [h.strays, hall]
    rfl
  · have hnext : s.lexer.next.1 = s.lexer.final := by
      have hdrop := h.along.upcoming
      rw [List.drop_eq_nil_of_le (by omega)] at hdrop
      rw [Lexer.next, hdrop]
    rw [toList_log_advance, hnext, h.drained hlen]
    exact List.append_nil _

/-- What a parse reports in all, from the state before the end of the file is expected. -/
theorem Reported.expect_endOfFile (h : Reported lexer s)
    (hopen : ∀ r ∈ lexer.upcoming, r.token.lexeme ≠ .mark .endOfFile) (c : ParseContext) :
    let found := (s.expect .endOfFile c).log.toList
    (found.map (·.span.first)).Pairwise (· ≤ ·) ∧
      found.filter Diagnostic.isStray <+: lexer.diagnostics ∧
      ((∀ d ∈ found, d.kind ≠ .parse) → found.filter Diagnostic.isStray = lexer.diagnostics) := by
  unfold expect
  split
  · rename_i ha
    obtain ⟨hall, hlog⟩ := h.strays_eq hopen ha
    rw [hlog]
    exact ⟨(List.pairwise_append.1 h.inOrder).1, h.strays_prefix, fun _ => hall⟩
  · have hreport := h.report (.mark .endOfFile) c
    refine ⟨(List.pairwise_append.1 hreport.inOrder).1, hreport.strays_prefix, fun hnone => ?_⟩
    -- the report that the end of the file is missing is about structure
    refine absurd rfl (hnone (ParseFault.diagnostic ⟨.mark .endOfFile, s.ahead, c⟩) ?_)
    rw [toList_log_report]
    exact List.mem_append_right _ (List.mem_singleton_self _)

end ParseState

/-- **The findings of a parse are in the order of the source.** Among them the stray characters
have places of their own, and are the first ones that the lexer finds; they are all of these if the
parser finds no fault of structure. -/
theorem Program.inOrder_ofSource (file : FileId) (source : Source)
    (hlt : source.length < 4294967295) :
    let found := (ofSource file source).2.toList
    let strays := found.filter fun d => d.kind = .stray
    found.Pairwise (fun d e => d.span.first ≤ e.span.first) ∧
    strays.Pairwise (fun d e => d.span.first < e.span.first) ∧
    strays <+: (Lexer.ofSource file source).diagnostics ∧
    ((∀ d ∈ found, d.kind ≠ .parse) → strays = (Lexer.ofSource file source).diagnostics) := by
  intro found strays
  have hplaces := Lexer.pairwise_places_ofSource file hlt
  have hfinal := Lexer.lexeme_final_ofSource file source
  obtain ⟨s, hl, hlog⟩ := leads_ofSource file source
  have hreported : ParseState.Reported (.ofSource file source) s :=
    (ParseState.reported_start hplaces).leads hplaces hfinal hl
  have hfound : found = (s.expect .endOfFile .programEnd).log.toList := congrArg Log.toList hlog
  obtain ⟨hinOrder, hprefix, hcomplete⟩ :=
    hreported.expect_endOfFile Lexer.ne_endOfFile_of_mem_upcoming .programEnd
  rw [← hfound] at hinOrder hprefix hcomplete
  refine ⟨List.pairwise_map.1 hinOrder, ?_, hprefix, hcomplete⟩
  exact (Lexer.pairwise_diagnostics hplaces).sublist hprefix.sublist

/-- Stray characters before, between and behind faults of structure, at one token and at several. -/
theorem Program.inOrder_ofSource_broken :
    let source := Source.ofString "int # = ;\n@ while x $ \x7b return 1; ~ ! ?"
    let found := (ofSource ⟨0⟩ source).2.toList
    let strays := found.filter fun d => d.kind = .stray
    source.length < 4294967295 ∧
    found.Pairwise (fun d e => d.span.first ≤ e.span.first) ∧
    strays.Pairwise (fun d e => d.span.first < e.span.first) ∧
    strays <+: (Lexer.ofSource ⟨0⟩ source).diagnostics ∧
    ((∀ d ∈ found, d.kind ≠ .parse) → strays = (Lexer.ofSource ⟨0⟩ source).diagnostics) :=
  have h : (Source.ofString "int # = ;\n@ while x $ \x7b return 1; ~ ! ?").length < 4294967295 := by
    decide
  ⟨h, inOrder_ofSource ⟨0⟩ _ h⟩

end WhileLang
