import Mathlib.Data.List.TakeWhile
import WhileLang.Token.Lexer
import WhileLang.Tree.Basic

/-!
# `WhileLang/Proofs/Token/Lexemes.lean` — what a text says, without places

A lexer gives out tokens with their places; the grammar sees only the lexemes. This file reads the
lexemes off the pieces of a text (`lexemes`) and says that a lexer made from a source gives out
exactly those, closed by one end of the file. Two facts about them are used wherever a source is
parsed: there are no more of them than bytes, and **no name among them is the name of a missing
symbol**.
-/

set_option autoImplicit false

namespace WhileLang

/-- The lexeme of a piece, if it is a token. -/
def Piece.lexeme? : Piece → Option Lexeme
  | .token _ l => some l
  | .blank _ | .stray _ => none

/-- The lexemes of a text, from left to right. -/
def lexemes (text : List Char) : List Lexeme :=
  (pieces text).filterMap Piece.lexeme?

/-! ## Pieces -/

theorem length_pieces_le (text : List Char) : (pieces text).length ≤ text.length := by
  induction h : text.length using Nat.strongRecOn generalizing text with
  | _ n ih =>
    cases text with
    | nil => simp
    | cons c rest =>
      have hrest := ih (rest.drop (reach c rest).length).length (by simp at h ⊢; omega) _ rfl
      rw [pieces_cons, List.length_cons]
      simp only [List.length_cons, List.length_drop] at h hrest
      omega

theorem length_lexemes_le (text : List Char) : (lexemes text).length ≤ text.length :=
  Nat.le_trans (List.length_filterMap_le ..) (length_pieces_le text)

/-- A source has no more lexemes than bytes. -/
theorem length_lexemes_chars_le (source : Source) :
    (lexemes source.chars).length ≤ source.length := by
  have hlen := length_lexemes_le source.chars
  rwa [Source.chars, List.length_map] at hlen

/-- Every piece of a text is what some character of it reaches. -/
theorem exists_of_mem_pieces {text : List Char} {p : Piece} (h : p ∈ pieces text) :
    ∃ c rest, p = .ofText c (reach c rest) := by
  induction hn : text.length using Nat.strongRecOn generalizing text with
  | _ n ih =>
    cases text with
    | nil => simp at h
    | cons c rest =>
      rw [pieces_cons, List.mem_cons] at h
      rcases h with rfl | h
      · exact ⟨c, rest, rfl⟩
      · exact ih _ (by simp at hn ⊢; omega) h rfl

theorem text_ne_nil_of_mem_pieces {text : List Char} {piece : Piece} (h : piece ∈ pieces text) :
    piece.text ≠ [] := by
  obtain ⟨c, rest, rfl⟩ := exists_of_mem_pieces h
  rw [Piece.text_ofText_reach]
  exact List.cons_ne_nil _ _

/-! ## Names -/

/-- A letter, then letters and digits, and not a reserved word. -/
def IsName (x : String) : Prop :=
  ∃ c more, x.toList = c :: more ∧ c.isAlpha = true ∧ (∀ d ∈ more, d.isAlphanum = true) ∧
    Mark.keyword? x = none

theorem isName_of_mem {text : List Char} {x : String} (h : .name x ∈ lexemes text) :
    IsName x := by
  obtain ⟨p, hp, hx⟩ := List.mem_filterMap.1 h
  obtain ⟨c, rest, rfl⟩ := exists_of_mem_pieces hp
  unfold Piece.ofText at hx
  split at hx
  · simp [Piece.lexeme?] at hx
  split at hx
  · rename_i hc
    simp only [Piece.lexeme?, Lexeme.ofWord, Option.some.injEq] at hx
    split at hx
    · simp at hx
    · rename_i hword
      obtain rfl := Lexeme.name.inj hx
      refine ⟨c, reach c rest, String.toList_ofList, hc, fun d hd => ?_, hword⟩
      rw [reach, if_pos hc] at hd
      exact List.mem_takeWhile_imp hd
  split at hx
  · simp [Piece.lexeme?] at hx
  · split at hx <;> simp [Piece.lexeme?] at hx

/-- The name of a missing symbol is not spelled like a name. -/
theorem IsName.ne_errorName {x : String} (h : IsName x) : x ≠ Symbol.errorName := by
  rintro rfl
  obtain ⟨c, more, hx, hc, -⟩ := h
  obtain rfl : '<' = c := (List.cons.inj hx).1
  exact absurd hc (by decide)

theorem IsName.isError_eq_false {s : Symbol} (h : IsName s.name) : s.isError = false := by
  simpa [Symbol.isError] using h.ne_errorName

/-- The end of the file is not spelled either. -/
theorem endOfFile_notMem_lexemes (text : List Char) : .mark .endOfFile ∉ lexemes text := by
  -- neither table of spellings has it
  have word {w : String} {m : Mark} (h : Mark.keyword? w = some m) : m ≠ .endOfFile := by
    rintro rfl
    exact absurd (List.mem_of_find?_eq_some h) (by decide)
  have operator {w : String} {m : Mark} (h : Mark.operator? w = some m) : m ≠ .endOfFile := by
    rintro rfl
    exact absurd (List.mem_of_find?_eq_some h) (by decide)
  intro h
  obtain ⟨p, hp, hx⟩ := List.mem_filterMap.1 h
  obtain ⟨c, rest, rfl⟩ := exists_of_mem_pieces hp
  unfold Piece.ofText at hx
  split at hx
  · simp [Piece.lexeme?] at hx
  split at hx
  · simp only [Piece.lexeme?, Lexeme.ofWord, Option.some.injEq] at hx
    split at hx
    · rename_i hw
      exact word hw (Lexeme.mark.inj hx)
    · simp at hx
  split at hx
  · simp [Piece.lexeme?] at hx
  · split at hx
    · rename_i ho
      exact operator ho (Lexeme.mark.inj (Option.some.inj hx))
    · simp [Piece.lexeme?] at hx

/-! ## Lexers -/

namespace Lexer

@[simp] theorem lexemes_upcoming_passing (s : Stray) (lexer : Lexer) :
    (passing s lexer).upcoming.map (·.token.lexeme) = lexer.upcoming.map (·.token.lexeme) := by
  unfold passing
  cases h : lexer.upcoming <;> simp

@[simp] theorem final_passing (s : Stray) (lexer : Lexer) :
    (passing s lexer).final.token = lexer.final.token := by
  unfold passing
  cases h : lexer.upcoming <;> simp

theorem lexeme_final_ofPieces (file : FileId) (p : Position) (ps : List Piece) :
    (ofPieces file p ps).final.token.lexeme = .mark .endOfFile := by
  induction ps generalizing p with
  | nil => rfl
  | cons piece ps ih => cases piece <;> simp [ofPieces, ih]

theorem lexemes_upcoming_ofPieces (file : FileId) (p : Position) (ps : List Piece) :
    (ofPieces file p ps).upcoming.map (·.token.lexeme) = ps.filterMap Piece.lexeme? := by
  induction ps generalizing p with
  | nil => rfl
  | cons piece ps ih =>
    cases piece with
    | blank c => exact ih _
    | stray c => exact (lexemes_upcoming_passing ..).trans (ih _)
    | token spelling lexeme => simp [ofPieces, Piece.lexeme?, ih]

/-- Where no piece is a stray character, no reading passes over one. -/
theorem strays_ofPieces (file : FileId) (p : Position) {ps : List Piece}
    (h : ∀ c, .stray c ∉ ps) : (∀ r ∈ (ofPieces file p ps).upcoming, r.strays = []) ∧
      (ofPieces file p ps).final.strays = [] := by
  induction ps generalizing p with
  | nil => simp [ofPieces]
  | cons piece ps ih =>
    have hps : ∀ c, .stray c ∉ ps := fun c hc => h c (List.mem_cons_of_mem _ hc)
    cases piece with
    | blank c => exact ih _ hps
    | stray c => exact absurd (List.mem_cons_self ..) (h c)
    | token spelling lexeme =>
      obtain ⟨hu, hf⟩ := ih (p.after spelling) hps
      refine ⟨fun r hr => ?_, hf⟩
      rw [ofPieces, List.mem_cons] at hr
      rcases hr with rfl | hr
      · rfl
      · exact hu r hr

/-- A lexer gives out the lexemes of its source. -/
theorem lexemes_upcoming_ofSource (file : FileId) (source : Source) :
    (ofSource file source).upcoming.map (·.token.lexeme) = lexemes source.chars :=
  lexemes_upcoming_ofPieces ..

theorem length_upcoming_ofSource (file : FileId) (source : Source) :
    (ofSource file source).upcoming.length = (lexemes source.chars).length := by
  rw [← lexemes_upcoming_ofSource file source, List.length_map]

theorem lexeme_final_ofSource (file : FileId) (source : Source) :
    (ofSource file source).final.token.lexeme = .mark .endOfFile :=
  lexeme_final_ofPieces ..

theorem ne_endOfFile_of_mem_upcoming {file : FileId} {source : Source} :
    ∀ r ∈ (ofSource file source).upcoming, r.token.lexeme ≠ .mark .endOfFile := by
  intro r hr heq
  have hmem := List.mem_map_of_mem (f := (·.token.lexeme)) hr
  rw [lexemes_upcoming_ofSource, heq] at hmem
  exact endOfFile_notMem_lexemes _ hmem

/-- The lexemes of the tokens of a source, the end of the file among them. -/
theorem lexemes_tokens_ofSource (file : FileId) (source : Source) :
    (ofSource file source).tokens.map (·.lexeme) = lexemes source.chars ++ [.mark .endOfFile] := by
  have hfinal := lexeme_final_ofSource file source
  simp [tokens, readings, hfinal, ← lexemes_upcoming_ofSource file source]

end Lexer

end WhileLang
