import Mathlib.Data.List.Flatten
import WhileLang.Proofs.Token.Tiling

/-!
# `WhileLang/Proofs/Token/Ascending.lean` — what a lexer hands out stands further and further on

A lexer hands out tokens, and with each the stray characters that are passed over to reach it. Every
one of them has a stretch of the source to itself: **it begins behind the end of the one before**
(`Lexer.Ascends`), up to the end of the file, which is the place behind them all.

That needs the pieces of a source to have at least one character each, and the counters of rows and
columns not to wrap.
-/

set_option autoImplicit false

namespace WhileLang

namespace Reading

/-- The stretches of the stray characters of a reading, and of its token. -/
def spans (r : Reading) : List Span :=
  r.strays.map (·.span) ++ [r.token.span]

/-- Where the stray characters of a reading stand, and where its token begins. -/
def places (r : Reading) : List Position :=
  r.strays.map (·.span.first) ++ [r.token.span.first]

end Reading

namespace Lexer

def spans (lexer : Lexer) : List Span :=
  lexer.readings.flatMap Reading.spans

def places (lexer : Lexer) : List Position :=
  lexer.readings.flatMap Reading.places

theorem map_first_spans (lexer : Lexer) : lexer.spans.map (·.first) = lexer.places := by
  unfold spans places
  rw [List.map_flatMap]
  congr 1
  funext r
  rw [Reading.spans, List.map_append, List.map_map]
  rfl

theorem spans_passing (s : Stray) (lexer : Lexer) :
    (passing s lexer).spans = s.span :: lexer.spans := by
  unfold passing spans readings
  cases lexer.upcoming <;> simp [Reading.spans]

theorem token_final_passing (s : Stray) (lexer : Lexer) :
    (passing s lexer).final.token = lexer.final.token := by
  unfold passing
  cases lexer.upcoming <;> rfl

/-- None of the stretches ends before it begins, and each ends before the next begins. -/
structure Ascends (lexer : Lexer) : Prop where
  ordered : ∀ a ∈ lexer.spans, a.first ≤ a.last
  disjoint : lexer.spans.Pairwise fun a b => a.last < b.first
  /-- The end of the file is a single place. -/
  final : lexer.final.token.span.last = lexer.final.token.span.first

theorem Ascends.cons {lexer lexer' : Lexer} {a : Span} (h : lexer.Ascends)
    (hspans : lexer'.spans = a :: lexer.spans)
    (hfinal : lexer'.final.token = lexer.final.token) (ha : a.first ≤ a.last)
    (hbehind : ∀ b ∈ lexer.spans, a.last < b.first) : lexer'.Ascends where
  ordered := by
    rw [hspans]
    exact List.forall_mem_cons.2 ⟨ha, h.ordered⟩
  disjoint := by
    rw [hspans]
    exact List.pairwise_cons.2 ⟨hbehind, h.disjoint⟩
  final := by
    rw [hfinal]
    exact h.final

/-- Nothing stands before the first of the pieces. -/
theorem le_of_mem_spans_ofPieces {file : FileId} {p : Position} {before : List Char}
    {ps : List Piece} (hp : p.Counts before)
    (hlt : (before ++ ps.flatMap Piece.text).length < 4294967295) :
    ∀ a ∈ (ofPieces file p ps).spans, p ≤ a.first := by
  induction ps generalizing p before with
  | nil =>
    intro a ha
    obtain rfl : a = .point file p := List.mem_singleton.1 ha
    exact le_refl p
  | cons piece ps ih =>
    rw [List.flatMap_cons, ← List.append_assoc] at hlt
    have hnext := hp.after ((List.prefix_append ..).length_le.trans_lt hlt)
    have hrest : ∀ a ∈ (ofPieces file (p.after piece.text) ps).spans, p ≤ a.first := by
      intro a ha
      exact (hp.le hnext).trans (ih hnext hlt a ha)
    cases piece with
    | blank c => exact hrest
    | stray c =>
      rw [ofPieces, spans_passing]
      exact List.forall_mem_cons.2 ⟨le_refl p, hrest⟩
    | token spelling l =>
      have hspans : (ofPieces file p (.token spelling l :: ps)).spans =
          ⟨file, p, p.last spelling⟩ :: (ofPieces file (p.after spelling) ps).spans := rfl
      rw [hspans]
      exact List.forall_mem_cons.2 ⟨le_refl p, hrest⟩

theorem ascends_ofPieces {file : FileId} {p : Position} {before : List Char} {ps : List Piece}
    (hne : ∀ piece ∈ ps, piece.text ≠ []) (hp : p.Counts before)
    (hlt : (before ++ ps.flatMap Piece.text).length < 4294967295) :
    (ofPieces file p ps).Ascends := by
  induction ps generalizing p before with
  | nil =>
    have hspans : (ofPieces file p []).spans = [.point file p] := rfl
    refine ⟨?_, ?_, rfl⟩
    · rw [hspans, List.forall_mem_singleton]
      exact le_refl p
    · rw [hspans]
      exact List.pairwise_singleton ..
  | cons piece ps ih =>
    rw [List.forall_mem_cons] at hne
    rw [List.flatMap_cons, ← List.append_assoc] at hlt
    have hend := (List.prefix_append ..).length_le.trans_lt hlt
    have hnext := hp.after hend
    have hrest := ih hne.2 hnext hlt
    have hbehind {q : Position} (hq : q < p.after piece.text) :
        ∀ b ∈ (ofPieces file (p.after piece.text) ps).spans, q < b.first := by
      intro b hb
      exact hq.trans_le (le_of_mem_spans_ofPieces hnext hlt b hb)
    cases piece with
    | blank c => exact hrest
    | stray c =>
      exact hrest.cons (spans_passing ..) (token_final_passing ..) (le_refl p)
        (hbehind (hp.lt hnext hne.1))
    | token spelling l =>
      exact hrest.cons rfl rfl (hp.le (hp.last hend)) (hbehind (hp.last_lt_after hne.1 hend))

/-- **What is handed out of a source ascends.** -/
theorem ascends_ofSource (file : FileId) {source : Source} (hlt : source.length < 4294967295) :
    (ofSource file source).Ascends := by
  apply ascends_ofPieces (fun _ => text_ne_nil_of_mem_pieces) Position.counts_start
  rwa [text_pieces, List.nil_append, Source.chars, List.length_map]

namespace Ascends

variable {lexer : Lexer}

/-- No two of them begin at one place. -/
theorem pairwise_places (h : lexer.Ascends) : lexer.places.Pairwise (· < ·) := by
  rw [← map_first_spans, List.pairwise_map]
  apply h.disjoint.imp_of_mem
  intro a b ha _ hab
  exact (h.ordered a ha).trans_lt hab

/-- Nothing extends past the end of the file. -/
theorem last_le_final (h : lexer.Ascends) :
    ∀ a ∈ lexer.spans, a.last ≤ lexer.final.token.span.first := by
  have hspans : lexer.spans = lexer.upcoming.flatMap Reading.spans ++
      lexer.final.strays.map (·.span) ++ [lexer.final.token.span] := by
    simp [spans, readings, Reading.spans]
  have hdisjoint := h.disjoint
  rw [hspans, List.pairwise_append] at hdisjoint
  intro a ha
  rw [hspans, List.mem_append, List.mem_singleton] at ha
  rcases ha with ha | rfl
  · exact le_of_lt (hdisjoint.2.2 a ha _ (List.mem_singleton_self _))
  · exact h.final.le

theorem span_mem_spans {t : Token} (ht : t ∈ lexer.tokens) : t.span ∈ lexer.spans := by
  obtain ⟨r, hr, rfl⟩ := List.mem_map.1 ht
  exact List.mem_flatMap.2 ⟨r, hr, List.mem_append_right _ (List.mem_singleton_self _)⟩

/-- Each token ends before the next begins. -/
theorem pairwise_tokens (h : lexer.Ascends) :
    lexer.tokens.Pairwise fun t u => t.span.last < u.span.first := by
  have hsub : (lexer.tokens.map (·.span)).Sublist lexer.spans := by
    unfold tokens spans
    rw [List.map_map, List.map_eq_flatMap]
    apply List.Sublist.flatMap_right
    intro r _
    exact List.sublist_append_right ..
  exact List.pairwise_map.1 (h.disjoint.sublist hsub)

end Ascends

theorem pairwise_places_ofSource (file : FileId) {source : Source}
    (hlt : source.length < 4294967295) : (ofSource file source).places.Pairwise (· < ·) :=
  (ascends_ofSource file hlt).pairwise_places

end Lexer

end WhileLang
