import WhileLang.Token.Piece
import WhileLang.Diagnostic.Log

/-!
# `WhileLang/Token/Lexer.lean` — a source as a supply of tokens

Each piece of a source is given its place, and blanks are dropped. What is left is a sequence of
**readings**: a token together with the stray characters that were passed over to reach it. The
last reading is always the end of the file, just past the last character.

A `Lexer` hands the readings out one at a time. **It never runs dry**: after the end of the file
every further token is the end of the file again, with no strays before it, so what is complained
about is complained about once.
-/

set_option autoImplicit false

namespace WhileLang

/-- A character that belongs to no token. -/
structure Stray where
  char : Char
  span : Span
deriving DecidableEq, Repr

/-- The finding about a stray character. A lone exclamation mark was probably half of `!=`. -/
def Stray.diagnostic (s : Stray) : Diagnostic :=
  let hint := if s.char = '!' then "; maybe you wanted to use '!='?" else ""
  .error .stray s.span ("invalid input char '" ++ String.singleton s.char ++ "'" ++ hint)

/-- A token and the stray characters before it, back to the token before. -/
structure Reading where
  strays : List Stray
  token : Token
deriving DecidableEq, Repr

/-- The tokens of a source that were not yet handed out. -/
structure Lexer where
  /-- The readings before the end of the file. -/
  upcoming : List Reading
  final : Reading
  /-- Whether the end of the file was handed out. -/
  isDone : Bool
deriving DecidableEq, Repr

namespace Lexer

/-- The lexer that first passes over `s` and then goes on as `lexer`. -/
def passing (s : Stray) (lexer : Lexer) : Lexer :=
  match lexer.upcoming with
  | [] => { lexer with final := { lexer.final with strays := s :: lexer.final.strays } }
  | r :: rs => { lexer with upcoming := { r with strays := s :: r.strays } :: rs }

/-- The readings of pieces of which the first stands at `p`. -/
def ofPieces (file : FileId) : Position → List Piece → Lexer
  | p, [] => ⟨[], ⟨[], ⟨.mark .endOfFile, .point file p⟩⟩, false⟩
  | p, .blank c :: rest => ofPieces file (p.step c) rest
  | p, .stray c :: rest => passing ⟨c, .point file p⟩ (ofPieces file (p.step c) rest)
  | p, .token spelling lexeme :: rest =>
    let lexer := ofPieces file (p.after spelling) rest
    { lexer with upcoming := ⟨[], ⟨lexeme, ⟨file, p, p.last spelling⟩⟩⟩ :: lexer.upcoming }

def ofSource (file : FileId) (source : Source) : Lexer :=
  ofPieces file .start (pieces source.chars)

def next (lexer : Lexer) : Reading × Lexer :=
  match lexer.upcoming with
  | r :: rs => (r, { lexer with upcoming := rs })
  | [] => (lexer.final, ⟨[], { lexer.final with strays := [] }, true⟩)

/-- All readings that are left, the end of the file included. -/
def readings (lexer : Lexer) : List Reading :=
  lexer.upcoming ++ [lexer.final]

/-- The tokens that are left, the last of which is the end of the file. -/
def tokens (lexer : Lexer) : List Token :=
  lexer.readings.map (·.token)

def diagnostics (lexer : Lexer) : List Diagnostic :=
  lexer.readings.flatMap fun r => r.strays.map (·.diagnostic)

end Lexer

end WhileLang
