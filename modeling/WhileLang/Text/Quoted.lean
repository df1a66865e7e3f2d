import WhileLang.Text.Graphic

/-!
# `WhileLang/Text/Quoted.lean` — text in quotes

A text is quoted so that it stays on one line and **every character of it can be seen**. What would
end the quotes or begin an escape has a backslash before it, the common controls have letters, and
any other character that is not seen on its own is shown by its code.
-/

set_option autoImplicit false

namespace WhileLang

namespace Quoted

/-- The letter that stands for a character after a backslash. -/
def letter? (c : Char) : Option Char :=
  if c = '"' ∨ c = '\\' then some c
  else if c = '\n' then some 'n'
  else if c = '\r' then some 'r'
  else if c = '\t' then some 't'
  else if c = '\x00' then some '0'
  else none

/-- A character as it stands between quotes. -/
def escape (c : Char) : List Char :=
  match letter? c with
  | some l => ['\\', l]
  | none =>
    if isGraphic c then [c]
    else ['\\', 'u', '{'] ++ Nat.toDigits 16 c.toNat ++ ['}']

end Quoted

def quote (text : String) : String :=
  String.ofList ('"' :: text.toList.flatMap Quoted.escape ++ ['"'])

end WhileLang
