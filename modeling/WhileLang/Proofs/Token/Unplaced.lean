import WhileLang.Token.Lexer

/-!
# `WhileLang/Proofs/Token/Unplaced.lean` — tokens and findings without their places

Layout shows in places and nowhere else. What is said of it is said with all places **set to one**:
a token, a finding or a lexer is *unplaced* when that was done, and two of them say the same, up to
layout, when they are equal unplaced. A finding keeps its severity, its kind and its message, and
the messages of its notes.

A lexer is unplaced by its pieces alone, those that are blank left out (`Lexer.unplaced_ofPieces`).
-/

set_option autoImplicit false

namespace WhileLang

/-! ## Findings -/

def Note.unplaced (n : Note) : Note := { n with span := default }

def Diagnostic.unplaced (d : Diagnostic) : Diagnostic :=
  { d with span := default, notes := d.notes.map Note.unplaced }

def Log.unplaced (log : Log) : Log := ⟨log.entries.map Diagnostic.unplaced⟩

namespace Log

theorem toList_unplaced (log : Log) : log.unplaced.toList = log.toList.map Diagnostic.unplaced :=
  Array.toList_map

theorem unplaced_push (log : Log) (d : Diagnostic) :
    (log.push d).unplaced = log.unplaced.push d.unplaced :=
  congrArg Log.mk Array.map_push

theorem unplaced_append (log : Log) (ds : List Diagnostic) :
    (log.append ds).unplaced = log.unplaced.append (ds.map Diagnostic.unplaced) := by
  apply ext_toList
  rw [toList_unplaced, toList_append, toList_append, toList_unplaced, List.map_append]

theorem errorCount_unplaced (log : Log) : log.unplaced.errorCount = log.errorCount := by
  rw [errorCount, errorCount, toList_unplaced, List.countP_map]
  rfl

end Log

/-! ## Tokens -/

def Token.unplaced (t : Token) : Token := { t with span := default }

def Stray.unplaced (s : Stray) : Stray := { s with span := default }

def Reading.unplaced (r : Reading) : Reading :=
  ⟨r.strays.map Stray.unplaced, r.token.unplaced⟩

@[simp] theorem Token.lexeme_unplaced (t : Token) : t.unplaced.lexeme = t.lexeme := rfl

theorem Stray.diagnostic_unplaced (s : Stray) : s.unplaced.diagnostic = s.diagnostic.unplaced :=
  rfl

/-- What is reported about the characters that a reading passed over. -/
theorem Reading.diagnostics_unplaced (r : Reading) :
    r.unplaced.strays.map (·.diagnostic) =
      (r.strays.map (·.diagnostic)).map Diagnostic.unplaced := by
  rw [unplaced, List.map_map, List.map_map]
  exact List.map_congr_left fun s _ => s.diagnostic_unplaced

def Lexer.unplaced (lexer : Lexer) : Lexer :=
  ⟨lexer.upcoming.map Reading.unplaced, lexer.final.unplaced, lexer.isDone⟩

/-- The pieces that mean nothing. -/
def Piece.isSpace : Piece → Bool
  | .blank _ => true
  | .stray _ | .token _ _ => false

namespace Lexer

theorem next_unplaced (lexer : Lexer) :
    lexer.unplaced.next = (lexer.next.1.unplaced, lexer.next.2.unplaced) := by
  unfold next unplaced
  cases lexer.upcoming <;> rfl

theorem unplaced_passing (s : Stray) (lexer : Lexer) :
    (passing s lexer).unplaced = passing s.unplaced lexer.unplaced := by
  unfold passing unplaced
  cases lexer.upcoming <;> rfl

/-- **Unplaced, a lexer is decided by the pieces that are not blank**, wherever they stand. -/
theorem unplaced_ofPieces (file file' : FileId) (p p' : Position) (ps : List Piece) :
    (ofPieces file p ps).unplaced =
      (ofPieces file' p' (ps.filter fun q => !q.isSpace)).unplaced := by
  induction ps generalizing p p' with
  | nil => rfl
  | cons piece ps ih =>
    cases piece with
    | blank c => exact ih _ _
    | stray c =>
      show (passing _ (ofPieces file (p.step c) ps)).unplaced = (passing _ _).unplaced
      rw [unplaced_passing, unplaced_passing, ih (p.step c) (p'.step c)]
      rfl
    | token spelling lexeme =>
      have h := ih (p.after spelling) (p'.after spelling)
      simp only [unplaced, mk.injEq] at h
      simp only [unplaced, ofPieces, List.filter_cons, Piece.isSpace, mk.injEq, List.map_cons,
        Bool.not_false, if_true, h.1, h.2.1, h.2.2, and_true]
      rfl

theorem unplaced_ofPieces_eq {file file' : FileId} {p p' : Position} {ps ps' : List Piece}
    (h : (ps.filter fun q => !q.isSpace) = ps'.filter fun q => !q.isSpace) :
    (ofPieces file p ps).unplaced = (ofPieces file' p' ps').unplaced := by
  rw [unplaced_ofPieces file file' p p', h, ← unplaced_ofPieces]

end Lexer

end WhileLang
