import WhileLang.Proofs.Parser.Run
import WhileLang.Proofs.Token.Tiling

/-!
# `WhileLang/Proofs/Parser/Progress.lean` — how far the parser has come in its source

The parser never goes back and never skips, so **the number of tokens it has taken says all about
where it is**: which token is ahead, where the last one ended, what is still to come, and what the
log says about stray characters (`ParseState.Along`). This holds at the first token, and each step
that the parser takes keeps it, so it holds in every state a parse comes to.
-/

set_option autoImplicit false

namespace WhileLang

namespace ParseState

/-- What the state has to do with the source, when this is the lexer before the first token. -/
structure Along (lexer : Lexer) (s : ParseState) : Prop where
  ahead : lexer.tokens[s.taken]? = some s.ahead
  upcoming : s.lexer.upcoming = lexer.upcoming.drop (s.taken + 1)
  /-- The end of the file is handed out last, with the strays before it. -/
  final : s.taken < lexer.upcoming.length → s.lexer.final = lexer.final
  lastEnd : ∀ t, s.taken ≠ 0 → lexer.tokens[s.taken - 1]? = some t → s.lastEnd = t.span.last
  /-- The stray characters before the token ahead were reported. -/
  strays : s.log.toList = [] → ∀ r ∈ lexer.readings.take (s.taken + 1), r.strays = []

end ParseState

namespace Lexer

theorem getElem?_readings_of_lt {lexer : Lexer} {n : Nat} (h : n < lexer.upcoming.length) :
    lexer.readings[n]? = lexer.upcoming[n]? :=
  List.getElem?_append_left h

theorem getElem?_readings_length (lexer : Lexer) :
    lexer.readings[lexer.upcoming.length]? = some lexer.final := by
  simp [readings]

theorem getElem?_tokens (lexer : Lexer) (n : Nat) :
    lexer.tokens[n]? = lexer.readings[n]?.map (·.token) :=
  List.getElem?_map ..

end Lexer

namespace ParseState

variable {lexer : Lexer} {s s' : ParseState}

theorem along_start (lexer : Lexer) : Along lexer (.start lexer .empty) := by
  have hlog (r : Reading) (h : (Log.empty.append (r.strays.map (·.diagnostic))).toList = []) :
      r.strays = [] := by
    simpa using h
  unfold start Lexer.next
  cases hu : lexer.upcoming with
  | nil =>
    refine ⟨?_, ?_, fun h => ?_, fun t h => absurd rfl h, fun h r hr => ?_⟩
    · simp [Lexer.tokens, Lexer.readings, hu]
    · simp [hu]
    · simp [hu] at h
    · obtain rfl : r = lexer.final := by simpa [Lexer.readings, hu] using hr
      exact hlog _ h
  | cons first rest =>
    refine ⟨?_, ?_, fun h => rfl, fun t h => absurd rfl h, fun h r hr => ?_⟩
    · simp [Lexer.tokens, Lexer.readings, hu]
    · simp [hu]
    · obtain rfl : r = first := by simpa [Lexer.readings, hu] using hr
      exact hlog _ h

/-- What the lexer hands out next, and what it keeps. -/
theorem Along.next (h : Along lexer s) (hlt : s.taken < lexer.upcoming.length) :
    lexer.readings[s.taken + 1]? = some s.lexer.next.1 ∧
      s.lexer.next.2.upcoming = lexer.upcoming.drop (s.taken + 2) ∧
      (s.taken + 1 < lexer.upcoming.length → s.lexer.next.2.final = lexer.final) := by
  unfold Lexer.next
  cases hu : s.lexer.upcoming with
  | nil =>
    have hdrop := h.upcoming.symm.trans hu
    rw [List.drop_eq_nil_iff] at hdrop
    obtain hlen : s.taken + 1 = lexer.upcoming.length := by omega
    refine ⟨?_, ?_, fun h => absurd h (by omega)⟩
    · rw [hlen, Lexer.getElem?_readings_length, h.final hlt]
    · exact (List.drop_eq_nil_of_le (by omega)).symm
  | cons r rs =>
    have hdrop := h.upcoming.symm.trans hu
    have hr : lexer.upcoming[s.taken + 1]? = some r := by
      rw [← List.head?_drop, hdrop, List.head?_cons]
    have hlen : s.taken + 1 < lexer.upcoming.length := (List.getElem?_eq_some_iff.1 hr).1
    refine ⟨?_, ?_, fun _ => h.final hlt⟩
    · rw [Lexer.getElem?_readings_of_lt hlen, hr]
    · rw [← List.tail_drop, hdrop, List.tail_cons]

theorem Along.taken_le (h : Along lexer s) : s.taken ≤ lexer.upcoming.length := by
  have hlt := (List.getElem?_eq_some_iff.1 h.ahead).1
  have hlt : s.taken < lexer.upcoming.length + 1 := by
    simpa [Lexer.tokens, Lexer.readings] using hlt
  exact Nat.le_of_lt_succ hlt

/-- Before the end of the file there is a token of the source ahead. -/
theorem Along.taken_lt (h : Along lexer s)
    (hfinal : lexer.final.token.lexeme = .mark .endOfFile)
    (ha : s.ahead.lexeme ≠ .mark .endOfFile) : s.taken < lexer.upcoming.length := by
  refine Nat.lt_of_le_of_ne h.taken_le fun heq => ha ?_
  have hahead := h.ahead
  rw [heq, Lexer.getElem?_tokens, Lexer.getElem?_readings_length] at hahead
  rw [← Option.some.inj hahead, hfinal]

theorem Along.advance (h : Along lexer s) (hlt : s.taken < lexer.upcoming.length) :
    Along lexer s.advance := by
  obtain ⟨hnext, hupcoming, hfinal⟩ := h.next hlt
  refine ⟨?_, hupcoming, hfinal, fun t _ ht => ?_, fun hlog r hr => ?_⟩
  · show lexer.tokens[s.taken + 1]? = some s.lexer.next.1.token
    rw [Lexer.getElem?_tokens, hnext]
    rfl
  · have ht : lexer.tokens[s.taken]? = some t := ht
    rw [h.ahead, Option.some.injEq] at ht
    show s.ahead.span.last = _
    rw [ht]
  · have hlog : (s.log.append (s.lexer.next.1.strays.map (·.diagnostic))).toList = [] := hlog
    rw [Log.toList_append, List.append_eq_nil_iff, List.map_eq_nil_iff] at hlog
    have hr : r ∈ lexer.readings.take (s.taken + 1 + 1) := hr
    rw [List.take_add_one, hnext, List.mem_append] at hr
    rcases hr with hr | hr
    · exact h.strays hlog.1 r hr
    · obtain rfl : r = s.lexer.next.1 := by simpa using hr
      exact hlog.2

theorem Along.report (h : Along lexer s) (e : Expected) (c : ParseContext) :
    Along lexer (s.report e c) := by
  -- a report is in the log, so nothing is said of strays any more
  refine ⟨h.ahead, h.upcoming, h.final, h.lastEnd, fun hlog => ?_⟩
  simp [ParseState.report] at hlog

/-- **What the parser does keeps it along its source.** -/
theorem Along.leads (h : Along lexer s) (hfinal : lexer.final.token.lexeme = .mark .endOfFile)
    (hl : s.Leads s') : Along lexer s' := by
  induction hl with
  | stay => exact h
  | thenAdvance _ ha ih => exact ih.advance (ih.taken_lt hfinal ha)
  | thenReport e c _ ih => exact ih.report e c
  | thenNumberNode _ ih => exact ⟨ih.ahead, ih.upcoming, ih.final, ih.lastEnd, ih.strays⟩
  | thenNumberDecl _ ih => exact ⟨ih.ahead, ih.upcoming, ih.final, ih.lastEnd, ih.strays⟩

theorem Leads.taken_le (h : s.Leads s') : s.taken ≤ s'.taken := by
  induction h with
  | stay => exact le_rfl
  | thenAdvance _ _ ih => exact Nat.le_succ_of_le ih
  | thenReport _ _ _ ih => exact ih
  | thenNumberNode _ ih => exact ih
  | thenNumberDecl _ ih => exact ih

theorem Leads.taken_lt (h : s.advance.Leads s') : s.taken < s'.taken :=
  Nat.lt_of_succ_le h.taken_le

/-! ## What was taken between two states -/

theorem spanSince_of_lt (h : s.taken < s'.taken) :
    s.spanSince s' = ⟨s'.ahead.span.file, s.ahead.span.first, s'.lastEnd⟩ :=
  if_neg (Nat.ne_of_gt h)

/-- A list from one place on is what stands there up to another place, and the list from that one
on. -/
theorem drop_eq_take_append_drop {α : Type} (l : List α) {m n : Nat} (h : m ≤ n) :
    l.drop m = (l.drop m).take (n - m) ++ l.drop n := by
  have hdrop : (l.drop m).drop (n - m) = l.drop n := by
    rw [List.drop_drop, Nat.add_sub_cancel' h]
  rw [← hdrop, List.take_append_drop]

theorem getLast?_take_drop {α : Type} {l : List α} {m n : Nat} (h : m < n) (hn : n ≤ l.length) :
    ((l.drop m).take (n - m)).getLast? = l[n - 1]? := by
  have hcount : ((l.drop m).take (n - m)).length = n - m := by
    rw [List.length_take, List.length_drop]
    omega
  rw [List.getLast?_eq_getElem?, hcount, List.getElem?_take_of_lt (by omega), List.getElem?_drop]
  congr 1
  omega

theorem Along.getElem?_of_lt (h : Along lexer s) (hlt : s.taken < lexer.upcoming.length) :
    (lexer.upcoming.map (·.token))[s.taken]? = some s.ahead := by
  rw [← h.ahead, Lexer.getElem?_tokens, Lexer.getElem?_readings_of_lt hlt, List.getElem?_map]

/-- With the end of the file ahead, all tokens of the source were taken. -/
theorem Along.taken_eq (h : Along lexer s)
    (hopen : ∀ r ∈ lexer.upcoming, r.token.lexeme ≠ .mark .endOfFile)
    (ha : s.ahead.lexeme = .mark .endOfFile) : s.taken = lexer.upcoming.length := by
  refine Nat.le_antisymm h.taken_le (Nat.le_of_not_lt fun hlt => ?_)
  obtain ⟨r, hr, heq⟩ := List.mem_map.1 (List.mem_of_getElem? (h.getElem?_of_lt hlt))
  exact hopen r hr (heq ▸ ha)

/-- The input is what the source has from the token ahead on. -/
theorem Along.input (h : Along lexer s) (hfinal : lexer.final.token.lexeme = .mark .endOfFile)
    (hopen : ∀ r ∈ lexer.upcoming, r.token.lexeme ≠ .mark .endOfFile) :
    s.input = ((lexer.upcoming.map (·.token)).drop s.taken).map (·.lexeme) := by
  by_cases hlt : s.taken < lexer.upcoming.length
  · have hdrop : s.ahead :: s.lexer.upcoming.map (·.token) =
        (lexer.upcoming.map (·.token)).drop s.taken := by
      obtain ⟨hlen, hahead⟩ := List.getElem?_eq_some_iff.1 (h.getElem?_of_lt hlt)
      rw [List.drop_eq_getElem_cons hlen, hahead, h.upcoming, List.map_drop]
    rw [ParseState.input, hdrop, List.takeWhile_eq_self_iff]
    intro l hl
    obtain ⟨t, ht, rfl⟩ := List.mem_map.1 hl
    obtain ⟨r, hr, rfl⟩ := List.mem_map.1 (List.mem_of_mem_drop ht)
    exact decide_eq_true (hopen r hr)
  · have hlen : s.taken = lexer.upcoming.length := by
      have hle := h.taken_le
      omega
    have hahead := h.ahead
    rw [hlen, Lexer.getElem?_tokens, Lexer.getElem?_readings_length] at hahead
    have hend : s.ahead.lexeme = .mark .endOfFile := by
      rw [← Option.some.inj hahead, hfinal]
    rw [List.drop_eq_nil_of_le (by simp [hlen]), ParseState.input]
    simp [hend]

/-- **Between two states the tokens of a stretch of the source were taken**, from the one that was
ahead to the one that was taken last. -/
theorem Along.exists_tokens (h : Along lexer s) (h' : Along lexer s')
    (hfinal : lexer.final.token.lexeme = .mark .endOfFile)
    (hopen : ∀ r ∈ lexer.upcoming, r.token.lexeme ≠ .mark .endOfFile)
    (hlt : s.taken < s'.taken) {ls : List Lexeme} (hin : s.input = ls ++ s'.input) :
    ∃ ts us vs last, lexer.upcoming.map (·.token) = ts ++ us ++ vs ∧ us.map (·.lexeme) = ls ∧
      us.head? = some s.ahead ∧ us.getLast? = some last ∧ s'.lastEnd = last.span.last := by
  have hle := h'.taken_le
  have hahead := h.getElem?_of_lt (hlt.trans_le hle)
  have hlast : lexer.tokens[s'.taken - 1]? =
      (lexer.upcoming.map (·.token))[s'.taken - 1]? := by
    rw [Lexer.getElem?_tokens, Lexer.getElem?_readings_of_lt (by omega), List.getElem?_map]
  rw [h.input hfinal hopen, h'.input hfinal hopen] at hin
  have hlen : (lexer.upcoming.map (·.token)).length = lexer.upcoming.length := List.length_map ..
  generalize lexer.upcoming.map (·.token) = tokens at hin hahead hlast hlen ⊢
  have hsplit := drop_eq_take_append_drop tokens hlt.le
  obtain ⟨last, htoken⟩ : ∃ last, tokens[s'.taken - 1]? = some last :=
    ⟨_, List.getElem?_eq_getElem (by omega)⟩
  refine ⟨tokens.take s.taken, (tokens.drop s.taken).take (s'.taken - s.taken),
    tokens.drop s'.taken, last, ?_, ?_, ?_, ?_, ?_⟩
  · rw [List.append_assoc, ← hsplit, List.take_append_drop]
  · rw [hsplit, List.map_append] at hin
    exact List.append_cancel_right hin
  · rw [List.head?_take, if_neg (by omega), List.head?_drop, hahead]
  · rw [getLast?_take_drop hlt (by omega), htoken]
  · exact h'.lastEnd last (by omega) (hlast.trans htoken)

end ParseState

end WhileLang
