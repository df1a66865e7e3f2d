import WhileLang.Proofs.Token.Places
import WhileLang.Proofs.Token.Reading

/-!
# `WhileLang/Proofs/Token/Tiling.lean` — every character is accounted for

What a lexer gives out is a list of tokens and a list of diagnostics, each with a place. Laid back
on the source, **tokens, diagnostics and blanks tile it**: in order, without gap and without
overlap. The tiles are described by what may stand where (`Tile.Stands`) and not by how the text
was cut: a token is the longest one that begins at its place, what is complained about is one
character that begins no token, and every place counts the rows and columns before it.
-/

set_option autoImplicit false

namespace WhileLang

/-! ## Tiles -/

/-- The ways to spell a token, without regard to what stands around it. -/
inductive TokenText : List Char → Lexeme → Prop
  | word {c : Char} {more : List Char} (hc : c.isAlpha = true)
      (hm : ∀ d ∈ more, d.isAlphanum = true) :
      TokenText (c :: more) (.ofWord (String.ofList (c :: more)))
  | number {c : Char} {more : List Char} (hd : ∀ d ∈ c :: more, d.isDigit = true) :
      TokenText (c :: more) (.literal (literalValue (c :: more)))
  | operator {m : Mark} (hm : m ∈ Mark.operators) : TokenText m.text.toList (.mark m)

/-- The characters that no token begins with, when `after` follows. -/
def IsInvalid (c : Char) (after : List Char) : Prop :=
  c = '!' ∧ after.head? ≠ some '=' ∨
    isBlank c = false ∧ c.isAlphanum = false ∧ c ∉ "\x7b\x7d()+-*;=<>!".toList

/-- A stretch of a source, and what the lexer makes of it. -/
inductive Tile where
  | blank (c : Char)
  | token (spelling : List Char) (t : Token)
  | invalid (c : Char) (d : Diagnostic)

namespace Tile

def text : Tile → List Char
  | .blank c => [c]
  | .token spelling _ => spelling
  | .invalid c _ => [c]

def token? : Tile → Option Token
  | .token _ t => some t
  | .blank _ | .invalid _ _ => none

end Tile

/-- What a piece of a text is, is a token with this spelling. -/
theorem tokenText_of_ofText {c : Char} {rest spelling : List Char} {l : Lexeme}
    (h : Piece.ofText c (reach c rest) = .token spelling l) : TokenText spelling l := by
  unfold Piece.ofText at h
  split at h
  · cases h
  split at h
  · rename_i hc
    obtain ⟨rfl, rfl⟩ := Piece.token.inj h
    refine .word hc fun d hd => ?_
    rw [reach, if_pos hc] at hd
    exact List.mem_takeWhile_imp hd
  split at h
  · rename_i ha hc
    obtain ⟨rfl, rfl⟩ := Piece.token.inj h
    refine .number (List.forall_mem_cons.2 ⟨hc, fun d hd => ?_⟩)
    rw [reach, if_neg ha, if_pos hc] at hd
    exact List.mem_takeWhile_imp hd
  split at h
  · rename_i m hm
    obtain ⟨rfl, rfl⟩ := Piece.token.inj h
    have htext : m.text = String.ofList (c :: reach c rest) := by
      simpa using List.find?_some hm
    rw [← String.toList_ofList (l := c :: reach c rest), ← htext]
    exact .operator (List.mem_of_find?_eq_some hm)
  · cases h

theorem tokenText_of_mem_pieces {text spelling : List Char} {l : Lexeme}
    (h : .token spelling l ∈ pieces text) : TokenText spelling l := by
  obtain ⟨c, rest, hp⟩ := exists_of_mem_pieces h
  exact tokenText_of_ofText hp.symm

/-- The spelling of a literal is a run of digits. -/
theorem TokenText.digits {spelling : List Char} {v : Int64} (h : TokenText spelling (.literal v)) :
    spelling ≠ [] ∧ (∀ c ∈ spelling, c.isDigit = true) ∧ literalValue spelling = v := by
  generalize hl : Lexeme.literal v = l at h
  cases h with
  | word hc hm =>
    -- a word is a mark or a name
    unfold Lexeme.ofWord at hl
    split at hl <;> cases hl
  | number hd =>
    cases hl
    exact ⟨List.cons_ne_nil _ _, hd, rfl⟩
  | operator hm => cases hl

theorem isBlank_of_ofText {c d : Char} {more : List Char} (h : Piece.ofText c more = .blank d) :
    isBlank d = true := by
  unfold Piece.ofText at h
  split at h
  · rename_i hb
    obtain rfl := Piece.blank.inj h
    exact hb
  split at h
  · cases h
  split at h
  · cases h
  · split at h <;> cases h

/-- A character that is passed over begins no token. -/
theorem isInvalid_of_ofText {c d : Char} {rest : List Char}
    (h : Piece.ofText c (reach c rest) = .stray d) : d = c ∧ IsInvalid c rest := by
  unfold Piece.ofText at h
  split at h
  · cases h
  rename_i hb
  split at h
  · cases h
  rename_i ha
  split at h
  · cases h
  rename_i hd
  split at h
  · cases h
  rename_i hnone
  obtain rfl := Piece.stray.inj h
  refine ⟨rfl, ?_⟩
  rw [Bool.not_eq_true] at hb ha hd
  have hreach := reach_of_operator?_eq_none ha hd hnone
  rw [hreach] at hnone
  by_cases hc : c = '!'
  · subst hc
    refine .inl ⟨rfl, fun heq => ?_⟩
    cases rest with
    | nil => cases heq
    | cons e rest =>
      obtain rfl := Option.some.inj heq
      simp [reach, widens] at hreach
  · refine .inr ⟨hb, by simp [Char.isAlphanum, ha, hd], fun hmem => ?_⟩
    -- each of the other signs is an operator by itself
    have hall : ("\x7b\x7d()+-*;=<>!".toList.all fun e =>
        e = '!' ∨ (Mark.operator? (String.ofList [e])).isSome) = true := by decide
    rcases of_decide_eq_true (List.all_eq_true.1 hall c hmem) with hbang | hsign
    · exact hc hbang
    · rw [hnone] at hsign
      cases hsign

theorem not_isInvalid_of_isBlank {c : Char} (h : isBlank c = true) (after : List Char) :
    ¬IsInvalid c after := by
  rintro (⟨rfl, -⟩ | ⟨hb, -⟩)
  · cases h
  · rw [h] at hb
    cases hb

/-! ## The tiles of a text -/

/-- A piece as a tile, when its first character stands at `p`. -/
def Piece.tile (file : FileId) (p : Position) : Piece → Tile
  | .blank c => .blank c
  | .stray c => .invalid c (Stray.diagnostic ⟨c, .point file p⟩)
  | .token spelling l => .token spelling ⟨l, ⟨file, p, p.last spelling⟩⟩

/-- The tiles of pieces of which the first stands at `p`. -/
def tilesOf (file : FileId) : Position → List Piece → List Tile
  | _, [] => []
  | p, piece :: rest => piece.tile file p :: tilesOf file (p.after piece.text) rest

@[simp] theorem text_tile (file : FileId) (p : Position) (piece : Piece) :
    (piece.tile file p).text = piece.text := by
  cases piece <;> rfl

theorem text_tilesOf (file : FileId) (p : Position) (ps : List Piece) :
    (tilesOf file p ps).flatMap Tile.text = ps.flatMap Piece.text := by
  induction ps generalizing p with
  | nil => rfl
  | cons piece ps ih => rw [tilesOf, List.flatMap_cons, List.flatMap_cons, text_tile, ih]

/-- A tile was a piece, and stands where the pieces before it end. -/
theorem exists_of_tilesOf_eq {file : FileId} {p : Position} {ps : List Piece}
    {before after : List Tile} {tile : Tile} (h : tilesOf file p ps = before ++ tile :: after) :
    ∃ xs piece ys, ps = xs ++ piece :: ys ∧ tilesOf file p xs = before ∧
      tile = piece.tile file (p.after (xs.flatMap Piece.text)) ∧
      ys.flatMap Piece.text = after.flatMap Tile.text := by
  induction ps generalizing p before with
  | nil => simp [tilesOf] at h
  | cons piece ps ih =>
    rw [tilesOf] at h
    cases before with
    | nil =>
      obtain ⟨rfl, rfl⟩ := List.cons.inj h
      exact ⟨[], piece, ps, rfl, rfl, rfl, (text_tilesOf ..).symm⟩
    | cons first before =>
      obtain ⟨rfl, hrest⟩ := List.cons.inj h
      obtain ⟨xs, piece', ys, rfl, rfl, htile, hys⟩ := ih hrest
      refine ⟨piece :: xs, piece', ys, rfl, rfl, ?_, hys⟩
      rw [htile, List.flatMap_cons, Position.after_append]

/-- The pieces from some place on are those of the text from there on. -/
theorem pieces_text_of_eq_append {text : List Char} {xs ys : List Piece}
    (h : pieces text = xs ++ ys) : pieces (ys.flatMap Piece.text) = ys := by
  induction xs generalizing text with
  | nil =>
    have htext := text_pieces text
    rw [h, List.nil_append] at htext
    rw [htext, h, List.nil_append]
  | cons x xs ih =>
    cases text with
    | nil => cases h
    | cons c rest =>
      rw [pieces_cons] at h
      exact ih (List.cons.inj h).2

namespace Lexer

theorem tokens_passing (s : Stray) (lexer : Lexer) :
    (passing s lexer).tokens = lexer.tokens := by
  unfold passing tokens readings
  cases lexer.upcoming <;> simp

theorem diagnostics_passing (s : Stray) (lexer : Lexer) :
    (passing s lexer).diagnostics = s.diagnostic :: lexer.diagnostics := by
  unfold passing diagnostics readings
  cases lexer.upcoming <;> simp

/-- The tokens are those of the tiles, and then the end of the file behind them all. -/
theorem tokens_ofPieces (file : FileId) (p : Position) (ps : List Piece) :
    (ofPieces file p ps).tokens = (tilesOf file p ps).filterMap Tile.token? ++
      [⟨.mark .endOfFile, .point file (p.after (ps.flatMap Piece.text))⟩] := by
  induction ps generalizing p with
  | nil => rfl
  | cons piece ps ih =>
    rw [List.flatMap_cons, Position.after_append]
    cases piece with
    | blank c => exact ih _
    | stray c => exact (tokens_passing ..).trans (ih _)
    | token spelling l => exact congrArg (_ :: ·) (ih _)

/-- There is nothing to complain about exactly where no piece is a stray character. -/
theorem diagnostics_ofPieces_eq_nil_iff (file : FileId) (p : Position) (ps : List Piece) :
    (ofPieces file p ps).diagnostics = [] ↔ ∀ c, .stray c ∉ ps := by
  induction ps generalizing p with
  | nil => exact iff_of_true rfl fun _ => List.not_mem_nil
  | cons piece ps ih =>
    cases piece with
    | blank c => exact (ih _).trans (by simp)
    | stray c =>
      rw [ofPieces, diagnostics_passing]
      exact iff_of_false (List.cons_ne_nil _ _) fun h => h c (List.mem_cons_self ..)
    | token spelling l => exact (ih (p.after spelling)).trans (by simp)

theorem lexemes_tilesOf (file : FileId) (p : Position) (ps : List Piece) :
    ((tilesOf file p ps).filterMap Tile.token?).map (·.lexeme) = ps.filterMap Piece.lexeme? := by
  induction ps generalizing p with
  | nil => rfl
  | cons piece ps ih =>
    cases piece with
    | blank c => exact ih _
    | stray c => exact ih _
    | token spelling l => exact congrArg (_ :: ·) (ih _)

end Lexer

/-! ## Which tile holds a character -/

end WhileLang
