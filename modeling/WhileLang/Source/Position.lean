/-!
# `WhileLang/Source/Position.lean` — where a character stands

A source is a sequence of bytes, and **each byte is one character**: it takes one column, and a
newline opens the next row. Positions are counted from row one, column one, in 32-bit words, so
a text of fewer than 2³² bytes never runs out of rows or columns.

Everything that reports a place does so through `Position.step`: the place after a character is a
function of the place before it and of the character alone.
-/

set_option autoImplicit false

namespace WhileLang

/-- The bytes of a program, as read from a file. -/
abbrev Source := List UInt8

/-- The characters of a source: each byte is the Latin-1 character of its code. -/
def Source.chars (source : Source) : List Char :=
  source.map Char.ofUInt8

/-- The bytes in which a text is stored, UTF-8. -/
def Source.ofString (text : String) : Source :=
  text.toUTF8.data.toList

/-- The number a source file is registered under. -/
structure FileId where
  /-- Position in the registry, from zero. -/
  index : UInt32
deriving DecidableEq, Repr, Inhabited

/-- A row and a column, both counted from one. -/
structure Position where
  /-- One more than the number of newlines before. -/
  row : UInt32
  /-- One more than the number of characters since the last newline. -/
  column : UInt32
deriving DecidableEq, Repr

namespace Position

/-- Where the first character of every text stands. -/
def start : Position := ⟨1, 1⟩

instance : Inhabited Position := ⟨start⟩

/-- The place after the character `c` at `p`. -/
def step (p : Position) (c : Char) : Position :=
  if c = '\n' then ⟨p.row + 1, 1⟩ else ⟨p.row, p.column + 1⟩

/-- The place after the characters `cs`, the first of which stands at `p`. -/
def after (p : Position) (cs : List Char) : Position :=
  cs.foldl step p

/-- The place of the last of the characters `cs`, the first of which stands at `p`. -/
def last (p : Position) (cs : List Char) : Position :=
  p.after cs.dropLast

/-- Reading order: by row, then by column. -/
instance : LE Position where
  le p q := p.row < q.row ∨ p.row = q.row ∧ p.column ≤ q.column

instance (p q : Position) : Decidable (p ≤ q) :=
  inferInstanceAs (Decidable (p.row < q.row ∨ p.row = q.row ∧ p.column ≤ q.column))

/-- Row and column with a colon between. -/
def text (p : Position) : String :=
  toString p.row.toNat ++ ":" ++ toString p.column.toNat

@[simp] theorem after_nil (p : Position) : p.after [] = p := rfl

@[simp] theorem after_cons (p : Position) (c : Char) (cs : List Char) :
    p.after (c :: cs) = (p.step c).after cs := rfl

theorem after_append (p : Position) (cs ds : List Char) :
    p.after (cs ++ ds) = (p.after cs).after ds :=
  List.foldl_append

end Position

end WhileLang
