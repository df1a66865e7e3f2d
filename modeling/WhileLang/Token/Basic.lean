import WhileLang.Source.Span

/-!
# `WhileLang/Token/Basic.lean` — the vocabulary of the language

A token is **a name, a literal, or one of the fixed marks**: the delimiters, operators and reserved
words, and the end of the file. Only names and literals carry more than their kind, so they are
constructors of their own (`Lexeme`), and a mark never has a payload.

`if` and `else` are marks that can be talked about but not written: they are reserved in the
vocabulary and missing from `Mark.keywords`, so in a source they are names.
-/

set_option autoImplicit false

namespace WhileLang

/-- The tokens that have one spelling each. -/
inductive Mark where
  | braceL
  | braceR
  | parenL
  | parenR
  | and
  | or
  | not
  | bool
  | int
  | true
  | false
  | return
  | if
  | else
  | while
  /-- What follows the last token of every source. -/
  | endOfFile
  | add
  | sub
  | mul
  | eq
  | ne
  | lt
  | le
  | gt
  | ge
  | assign
  | semicolon
deriving DecidableEq, Repr

namespace Mark

/-- How a mark is written, in a source and in a message. -/
def text : Mark → String
  | .braceL => "\x7b"
  | .braceR => "\x7d"
  | .parenL => "("
  | .parenR => ")"
  | .and => "and"
  | .or => "or"
  | .not => "not"
  | .bool => "bool"
  | .int => "int"
  | .true => "true"
  | .false => "false"
  | .return => "return"
  | .if => "if"
  | .else => "else"
  | .while => "while"
  | .endOfFile => "<end of file>"
  | .add => "+"
  | .sub => "-"
  | .mul => "*"
  | .eq => "=="
  | .ne => "!="
  | .lt => "<"
  | .le => "<="
  | .gt => ">"
  | .ge => ">="
  | .assign => "="
  | .semicolon => ";"

/-- The words that are not names. -/
def keywords : List Mark :=
  [.and, .or, .not, .bool, .int, .true, .false, .return, .while]

/-- The marks that are written without letters. -/
def operators : List Mark :=
  [.braceL, .braceR, .parenL, .parenR, .add, .sub, .mul, .semicolon,
   .eq, .assign, .ne, .le, .lt, .ge, .gt]

/-- The reserved word that is written `word`. -/
def keyword? (word : String) : Option Mark :=
  keywords.find? fun m => m.text = word

/-- The operator or delimiter that is written `text`. -/
def operator? (text : String) : Option Mark :=
  operators.find? fun m => m.text = text

end Mark

/-- The kind of a token: what the grammar sees of it. -/
inductive Tag where
  | mark (m : Mark)
  | name
  | literal
deriving DecidableEq, Repr

def Tag.text : Tag → String
  | .mark m => m.text
  | .name => "<identifier>"
  | .literal => "<literal>"

/-- What a token is, without its place. -/
inductive Lexeme where
  | mark (m : Mark)
  | name (text : String)
  | literal (value : Int64)
deriving DecidableEq, Repr

namespace Lexeme

def tag : Lexeme → Tag
  | .mark m => .mark m
  | .name _ => .name
  | .literal _ => .literal

/-- How a token is shown: a literal by its value, so leading zeros are gone. -/
def text : Lexeme → String
  | .mark m => m.text
  | .name s => s
  | .literal v => toString v

end Lexeme

/-- A token and the stretch of source it was read from. -/
structure Token where
  lexeme : Lexeme
  span : Span
deriving DecidableEq, Repr

end WhileLang
