import WhileLang.Token.Basic

/-!
# `WhileLang/Token/Piece.lean` — how source text falls into pieces

A text is cut, from the left and without gaps, into **pieces**: a blank character, a token, or a
stray character that can begin no token. Where a piece ends is decided by `reach`, which takes as
many characters as still belong to the word, number or operator that the first one begins.

Places play no part here. That the pieces, written one after the other, are the text again is
`text_pieces`; which of them is a token depends on the characters alone, so a change of layout that
touches only blanks changes only blanks.
-/

set_option autoImplicit false

namespace WhileLang

/-- The characters that separate tokens and are otherwise ignored. -/
def isBlank (c : Char) : Bool :=
  [' ', '\t', '\n', '\r', '\x0b', '\x0c'].contains c

/-- The characters that make a longer operator with a `=` after them. -/
def widens (c : Char) : Bool :=
  ['=', '<', '>', '!'].contains c

/-- The characters of `rest` that belong to the piece which `c` begins. -/
def reach (c : Char) (rest : List Char) : List Char :=
  if c.isAlpha then rest.takeWhile Char.isAlphanum
  else if c.isDigit then rest.takeWhile Char.isDigit
  else if widens c then (rest.take 1).takeWhile (· = '=')
  else []

/-- A maximal stretch of text with one meaning. -/
inductive Piece where
  | blank (c : Char)
  /-- A character that belongs to no token. -/
  | stray (c : Char)
  /-- A token and its spelling. -/
  | token (spelling : List Char) (lexeme : Lexeme)
deriving DecidableEq, Repr

/-- The value of a run of digits: its decimal value, reduced to 64 bits. -/
def literalValue (digits : List Char) : Int64 :=
  Int64.ofNat (Nat.ofDigitChars 10 digits 0)

/-- To reduce once is to take the digits one by one in 64 bits, where every step wraps. -/
theorem literalValue_eq_foldl (digits : List Char) :
    literalValue digits =
      digits.foldl (fun value c => value * 10 + Int64.ofNat (c.toNat - '0'.toNat)) 0 := by
  suffices h : ∀ n, Int64.ofNat (Nat.ofDigitChars 10 digits n) =
      digits.foldl (fun value c => value * 10 + Int64.ofNat (c.toNat - '0'.toNat)) (.ofNat n) from
    h 0
  intro n
  induction digits generalizing n with
  | nil => rfl
  | cons c digits ih =>
    rw [Nat.ofDigitChars_cons, ih, Int64.ofNat_add, Int64.ofNat_mul, Int64.mul_comm]
    rfl

/-- What a word is: a reserved word or else a name. -/
def Lexeme.ofWord (word : String) : Lexeme :=
  match Mark.keyword? word with
  | some m => .mark m
  | none => .name word

namespace Piece

def text : Piece → List Char
  | .blank c => [c]
  | .stray c => [c]
  | .token spelling _ => spelling

/-- The piece that begins with `c` and goes on with `more`, which is what `c` reaches. -/
def ofText (c : Char) (more : List Char) : Piece :=
  if isBlank c then .blank c
  else if c.isAlpha then .token (c :: more) (.ofWord (String.ofList (c :: more)))
  else if c.isDigit then .token (c :: more) (.literal (literalValue (c :: more)))
  else match Mark.operator? (String.ofList (c :: more)) with
    | some m => .token (c :: more) (.mark m)
    | none => .stray c

/-- The pieces of a text of which the first `skip` characters are already taken. -/
def cut : Nat → List Char → List Piece
  | _, [] => []
  | skip + 1, _ :: rest => cut skip rest
  | 0, c :: rest => ofText c (reach c rest) :: cut (reach c rest).length rest

end Piece

def pieces (text : List Char) : List Piece :=
  Piece.cut 0 text

/-! ## Nothing is lost -/

/-- What a character reaches stands directly after it. -/
theorem reach_append_drop (c : Char) (rest : List Char) :
    reach c rest ++ rest.drop (reach c rest).length = rest := by
  have h (p : Char → Bool) (l : List Char) :
      l.takeWhile p ++ l.drop (l.takeWhile p).length = l := by
    induction l with
    | nil => rfl
    | cons a l ih => by_cases ha : p a <;> simp [ha, ih]
  unfold reach
  split
  · exact h _ _
  · split
    · exact h _ _
    · split
      · cases rest with
        | nil => rfl
        | cons a l => by_cases ha : a = '=' <;> simp [ha]
      · rfl

theorem reach_of_isBlank {c : Char} (h : isBlank c = true) (rest : List Char) :
    reach c rest = [] := by
  simp only [isBlank, List.contains_eq_mem, List.mem_cons, List.not_mem_nil, or_false,
    decide_eq_true_eq] at h
  rcases h with rfl | rfl | rfl | rfl | rfl | rfl <;> rfl

/-- A character that begins no operator with what it reaches, reaches nothing. -/
theorem reach_of_operator?_eq_none {c : Char} {rest : List Char} (ha : c.isAlpha = false)
    (hd : c.isDigit = false) (h : Mark.operator? (String.ofList (c :: reach c rest)) = none) :
    reach c rest = [] := by
  by_cases hw : widens c = true
  · have hr : reach c rest = (rest.take 1).takeWhile (· = '=') := by simp [reach, ha, hd, hw]
    rw [hr] at h ⊢
    simp only [widens, List.contains_eq_mem, List.mem_cons, List.not_mem_nil, or_false,
      decide_eq_true_eq] at hw
    cases rest with
    | nil => rfl
    | cons a l =>
      by_cases ha : a = '='
      · subst ha
        have hne : Mark.operator? (String.ofList [c, '=']) ≠ none := by
          rcases hw with rfl | rfl | rfl | rfl <;> decide
        exact absurd h hne
      · simp [ha]
  · simp [reach, ha, hd, hw]

/-- A piece is written with the character it begins with and what that reaches. -/
theorem Piece.text_ofText_reach (c : Char) (rest : List Char) :
    (Piece.ofText c (reach c rest)).text = c :: reach c rest := by
  unfold Piece.ofText
  split
  · rename_i hb
    simp [Piece.text, reach_of_isBlank hb]
  · split
    · rfl
    · split
      · rfl
      · rename_i ha hd
        split
        · rfl
        · rename_i h
          simp [Piece.text, reach_of_operator?_eq_none (by simpa using ha) (by simpa using hd) h]

/-- Cutting a text of which a part is taken is cutting the rest of it. -/
theorem Piece.cut_eq_drop (skip : Nat) (text : List Char) :
    Piece.cut skip text = pieces (text.drop skip) := by
  induction text generalizing skip with
  | nil => cases skip <;> rfl
  | cons c rest ih =>
    cases skip with
    | zero => rfl
    | succ skip => exact ih skip

@[simp] theorem pieces_nil : pieces [] = [] := rfl

/-- The first piece is what the first character reaches, and the others are the pieces after it. -/
theorem pieces_cons (c : Char) (rest : List Char) :
    pieces (c :: rest) =
      Piece.ofText c (reach c rest) :: pieces (rest.drop (reach c rest).length) := by
  rw [← Piece.cut_eq_drop]
  rfl

/-- The pieces, written one after the other, are the text. -/
theorem text_pieces (text : List Char) : (pieces text).flatMap Piece.text = text := by
  induction h : text.length using Nat.strongRecOn generalizing text with
  | _ n ih =>
    cases text with
    | nil => rfl
    | cons c rest =>
      rw [pieces_cons, List.flatMap_cons, Piece.text_ofText_reach,
        ih _ (by simp at h ⊢; omega) _ rfl]
      simp [reach_append_drop]

end WhileLang
