import WhileLang.Proofs.Parser.Run

/-!
# `WhileLang/Proofs/Parser/Findings.lean` — what kinds of findings a parse has

The log of a parse has two sources: the stray characters that are passed over, and the complaints
about structure. **All of them are errors, and none is of a kind that only the checker finds**
(`Program.isOfParse_ofSource`), so the two phases can be told apart in the log they share.
-/

set_option autoImplicit false

namespace WhileLang

/-- What a lexer or a parser finds. -/
def Diagnostic.IsOfParse (d : Diagnostic) : Prop :=
  d.severity = .error ∧ (d.kind = .stray ∨ d.kind = .parse)

theorem Stray.isOfParse (s : Stray) : s.diagnostic.IsOfParse := ⟨rfl, .inl rfl⟩

theorem ParseFault.isOfParse (f : ParseFault) : f.diagnostic.IsOfParse := ⟨rfl, .inr rfl⟩

namespace ParseState

/-- Nothing else was found so far. -/
def Parsing (s : ParseState) : Prop := ∀ d ∈ s.log.toList, d.IsOfParse

theorem Parsing.report {s : ParseState} (h : s.Parsing) (e : Expected) (c : ParseContext) :
    (s.report e c).Parsing := by
  unfold Parsing ParseState.report
  rw [Log.toList_push, List.forall_mem_append, List.forall_mem_singleton]
  exact ⟨h, ParseFault.isOfParse _⟩

theorem isOfParse_strays (strays : List Stray) :
    ∀ d ∈ strays.map (·.diagnostic), d.IsOfParse := by
  intro d hd
  obtain ⟨s, -, rfl⟩ := List.mem_map.1 hd
  exact s.isOfParse

theorem Parsing.advance {s : ParseState} (h : s.Parsing) : s.advance.Parsing := by
  unfold Parsing ParseState.advance
  rw [Log.toList_append, List.forall_mem_append]
  exact ⟨h, isOfParse_strays _⟩

theorem Parsing.expect {s : ParseState} (h : s.Parsing) (m : Mark) (c : ParseContext) :
    (s.expect m c).Parsing := by
  unfold ParseState.expect
  split
  · exact h.advance
  · exact h.report _ c

theorem parsing_ofSource (file : FileId) (source : Source) : (ofSource file source).Parsing := by
  unfold Parsing ofSource start
  rw [Log.toList_append, List.forall_mem_append]
  exact ⟨by simp, isOfParse_strays _⟩

/-- **Every step of the parser keeps it so.** -/
theorem Parsing.leads {s s' : ParseState} (h : s.Parsing) (hl : s.Leads s') : s'.Parsing := by
  induction hl with
  | stay => exact h
  | thenAdvance _ _ ih => exact ih.advance
  | thenReport e c _ ih => exact ih.report e c
  | thenNumberNode _ ih => exact ih
  | thenNumberDecl _ ih => exact ih

end ParseState

/-- **A parse finds nothing but stray characters and faults of structure.** -/
theorem Program.isOfParse_ofSource (file : FileId) (source : Source) :
    ∀ d ∈ (ofSource file source).2.toList, d.IsOfParse := by
  obtain ⟨s, hl, hlog⟩ := leads_ofSource file source
  rw [hlog]
  exact ((ParseState.parsing_ofSource file source).leads hl).expect _ _

end WhileLang
