import WhileLang.Operator
import WhileLang.Proofs.Token.Boundary

/-!
# `WhileLang/Proofs/C/Text.lean` — C source as a sequence of tokens

What a text means in C is defined in this directory, for the part of the language that programs are
compiled to and **without reference to the compiler**: this file cuts a text into tokens,
`Reader.lean` reads tokens as a program, and `Machine.lean` runs it.

Each token is the longest one that its first character begins. All signs of the language are in the
table, also those for which no rule has a use, because `--` must not pass for two signs; the same
goes for its reserved words. A text with anything else in it (a comment, an octal constant, an
escape other than that of the newline) is not read at all.
-/

set_option autoImplicit false

namespace WhileLang.C

/-- The words that are not names. `bool`, `true` and `false` are macros of `stdbool.h`. -/
inductive Keyword where
  | bool | int | long | while | return | true | false | printf
  | other
deriving DecidableEq, Repr

inductive Sign where
  | parenL | parenR | braceL | braceR | semicolon | comma | question | colon | assign | not
  | op (op : BinaryOp)
  | other
deriving DecidableEq, Repr

inductive Token where
  | keyword (k : Keyword)
  | name (text : String)
  /-- A decimal constant, and the letters after its digits. -/
  | number (value : Nat) (suffix : String)
  /-- A string literal: what is between its quotes, with its escapes resolved. -/
  | string (content : List Char)
  | sign (s : Sign)
  /-- The rest of a line after `#`. -/
  | directive (text : String)
deriving DecidableEq, Repr

/-- How the words are written that there is a use for. -/
def Keyword.text : Keyword → String
  | .bool => "bool"
  | .int => "int"
  | .long => "long"
  | .while => "while"
  | .return => "return"
  | .true => "true"
  | .false => "false"
  | .printf => "printf"
  | .other => ""

def keywords : List (String × Keyword) :=
  [Keyword.bool, .int, .long, .while, .return, .true, .false, .printf].map (fun k => (k.text, k)) ++
  ["auto", "break", "case", "char", "const", "continue", "default", "do", "double", "else", "enum",
   "extern", "float", "for", "goto", "if", "inline", "register", "restrict", "short", "signed",
   "sizeof", "static", "struct", "switch", "typedef", "union", "unsigned", "void", "volatile",
   "_Alignas", "_Alignof", "_Atomic", "_Bool", "_Complex", "_Generic", "_Imaginary", "_Noreturn",
   "_Static_assert", "_Thread_local"].map (·, .other)

/-- The signs, each before those it begins with. -/
def signs : List (List Char × Sign) :=
  ["%:%:", "...", "<<=", ">>=", "->", "++", "--", "<<", ">>", "*=", "/=", "%=", "+=", "-=", "&=",
    "^=", "|=", "##", "<:", ":>", "<%", "%>", "%:"].map (·.toList, .other) ++
  [(['<', '='], .op .le), (['>', '='], .op .ge), (['=', '='], .op .eq), (['!', '='], .op .ne),
   (['&', '&'], .op .and), (['|', '|'], .op .or), (['<'], .op .lt), (['>'], .op .gt),
   (['+'], .op .add), (['-'], .op .sub), (['*'], .op .mul), (['!'], .not), (['='], .assign),
   (['('], .parenL), ([')'], .parenR), (['\x7b'], .braceL), (['\x7d'], .braceR),
   ([';'], .semicolon), ([','], .comma), (['?'], .question), ([':'], .colon)] ++
  ["[", "]", ".", "&", "~", "/", "%", "^", "|"].map (·.toList, .other)

def isBlank (c : Char) : Bool :=
  [' ', '\t', '\n', '\x0b', '\x0c'].contains c

def isWordChar (c : Char) : Bool :=
  c.isAlphanum || c = '_'

def Token.ofWord (word : String) : Token :=
  match keywords.lookup word with
  | some k => .keyword k
  | none => .name word

/-- The constant that these characters spell, unless a zero in front makes it an octal one. -/
def Token.ofNumber? (chars : List Char) : Option Token :=
  let digits := chars.takeWhile Char.isDigit
  let value := Nat.ofDigitChars 10 digits 0
  if Nat.toDigits 10 value = digits then
    some (.number value (String.ofList (chars.drop digits.length)))
  else none

/-- What stands between the quotes of a string literal, read after the first of them, and how many
characters it takes with the second. -/
def literal : List Char → Option (List Char × Nat)
  | '"' :: _ => some ([], 1)
  | '\\' :: 'n' :: rest => (literal rest).map fun (content, n) => ('\n' :: content, n + 2)
  | '\\' :: _ | '\n' :: _ | [] => none
  | c :: rest => (literal rest).map fun (content, n) => (c :: content, n + 1)

/-- What `c` begins, and how many of the characters after it belong to that. A blank is no token. -/
def first (c : Char) (rest : List Char) : Option (Option Token × Nat) :=
  if isBlank c then some (none, 0)
  else if c.isDigit then
    let more := rest.takeWhile isWordChar
    (Token.ofNumber? (c :: more)).map fun token => (some token, more.length)
  else if isWordChar c then
    let more := rest.takeWhile isWordChar
    some (some (.ofWord (String.ofList (c :: more))), more.length)
  else if c = '"' then (literal rest).map fun (content, n) => (some (.string content), n)
  else if c = '#' then
    let more := rest.takeWhile (· ≠ '\n')
    some (some (.directive (String.ofList more)), more.length)
  else
    (signs.find? fun s => s.1.isPrefixOf (c :: rest)).map fun (chars, s) =>
      (some (.sign s), chars.length - 1)

/-- The tokens of a text of which the first `skip` characters are already taken. -/
def scan : Nat → List Char → Option (List Token)
  | _, [] => some []
  | skip + 1, _ :: rest => scan skip rest
  | 0, c :: rest => do
    let (token?, n) ← first c rest
    let tokens ← scan n rest
    return token?.toList ++ tokens

def tokens (text : List Char) : Option (List Token) :=
  scan 0 text

/-! ## Texts that fall into given tokens -/

/-- A text falls into these tokens. -/
def Reads (text : List Char) (ts : List Token) : Prop :=
  tokens text = some ts

/-- The text does not go on with a word. -/
abbrev Stops : List Char → Prop := Boundary isWordChar

theorem isWordChar_of_isDigit {c : Char} (h : c.isDigit = true) : isWordChar c = true := by
  simp [isWordChar, Char.isAlphanum, h]

theorem isBlank_eq_false {c : Char} (h : isWordChar c = true) : isBlank c = false := by
  rw [Bool.eq_false_iff]
  intro hb
  simp only [isBlank, List.contains_eq_mem, List.mem_cons, List.not_mem_nil, or_false,
    decide_eq_true_eq] at hb
  rcases hb with rfl | rfl | rfl | rfl | rfl <;> exact absurd h (by decide)

theorem scan_eq_drop (skip : Nat) (text : List Char) :
    scan skip text = tokens (text.drop skip) := by
  induction text generalizing skip with
  | nil => cases skip <;> rfl
  | cons c rest ih =>
    cases skip with
    | zero => rfl
    | succ skip => exact ih skip

namespace Reads

variable {rest : List Char} {ts : List Token}

theorem nil : Reads [] [] := rfl

theorem of_first (c : Char) (more : List Char) (token? : Option Token)
    (hf : first c (more ++ rest) = some (token?, more.length)) (h : Reads rest ts) :
    Reads (c :: (more ++ rest)) (token?.toList ++ ts) := by
  have hrest : scan more.length (more ++ rest) = some ts := by
    rw [scan_eq_drop, List.drop_left]
    exact h
  show (first c (more ++ rest)).bind _ = _
  rw [hf]
  simp [hrest]

theorem blank {c : Char} (hc : isBlank c = true) (h : Reads rest ts) : Reads (c :: rest) ts :=
  of_first c [] none (by simp [first, hc]) h

theorem space (h : Reads rest ts) : Reads (' ' :: rest) ts := h.blank (by decide)

theorem newline (h : Reads rest ts) : Reads ('\n' :: rest) ts := h.blank (by decide)

theorem blanks {cs : List Char} (hc : ∀ c ∈ cs, isBlank c = true) (h : Reads rest ts) :
    Reads (cs ++ rest) ts := by
  induction cs with
  | nil => exact h
  | cons c cs ih =>
    exact (ih fun d hd => hc d (List.mem_cons_of_mem _ hd)).blank (hc c (List.mem_cons_self ..))

theorem word {c : Char} {more : List Char} (hc : c.isDigit = false)
    (hm : ∀ d ∈ c :: more, isWordChar d = true) (hs : Stops rest) (h : Reads rest ts) :
    Reads (c :: more ++ rest) (.ofWord (String.ofList (c :: more)) :: ts) := by
  have hc' := hm c (List.mem_cons_self ..)
  refine of_first c more (some _) ?_ h
  have hmore : (more ++ rest).takeWhile isWordChar = more :=
    takeWhile_append_of_boundary (fun _ => id) (fun d hd => hm d (List.mem_cons_of_mem _ hd)) hs
  simp [first, isBlank_eq_false hc', hc, hc', hmore]

theorem keyword {k : Keyword} (hk : k ≠ .other) (hs : Stops rest) (h : Reads rest ts) :
    Reads (k.text.toList ++ rest) (.keyword k :: ts) := by
  obtain ⟨c, more, hcs, hc, hm, hw⟩ : ∃ c more, k.text.toList = c :: more ∧ c.isDigit = false ∧
      (∀ d ∈ c :: more, isWordChar d = true) ∧ Token.ofWord k.text = .keyword k := by
    cases k <;>
      first
        | exact absurd rfl hk
        | exact ⟨_, _, rfl, by decide, List.all_eq_true.1 (by decide), by decide⟩
  have hr := h.word hc hm hs
  rwa [← hcs, String.ofList_toList, hw] at hr

theorem keywordSpace {k : Keyword} (hk : k ≠ .other) (h : Reads rest ts) :
    Reads (k.text.toList ++ ' ' :: rest) (.keyword k :: ts) :=
  h.space.keyword hk (.cons (by decide) _)

/-- A number is read as written, and so are the letters after it. -/
theorem number (n : Nat) (suffix : List Char)
    (hsuffix : suffix.all (fun c => isWordChar c && !c.isDigit) = true) (hs : Stops rest)
    (h : Reads rest ts) :
    Reads (Nat.toDigits 10 n ++ suffix ++ rest) (.number n (String.ofList suffix) :: ts) := by
  obtain ⟨c, more, hcs, hdigits⟩ := exists_toDigits_eq_cons n
  have hc := hdigits c (List.mem_cons_self ..)
  simp only [List.all_eq_true, Bool.and_eq_true, Bool.not_eq_true'] at hsuffix
  -- the digits end where the suffix begins, and the suffix where the word does
  have htake : (Nat.toDigits 10 n ++ suffix).takeWhile Char.isDigit = Nat.toDigits 10 n := by
    rw [hcs, List.takeWhile_append_of_pos hdigits]
    cases suffix with
    | nil => simp
    | cons d suffix =>
      have hd : ¬d.isDigit = true := by simp [(hsuffix d (List.mem_cons_self ..)).2]
      rw [List.takeWhile_cons_of_neg hd, List.append_nil]
  have hmore : (more ++ suffix ++ rest).takeWhile isWordChar = more ++ suffix := by
    apply takeWhile_append_of_boundary (fun _ => id) _ hs
    intro d hd
    rcases List.mem_append.1 hd with hd | hd
    · exact isWordChar_of_isDigit (hdigits d (List.mem_cons_of_mem _ hd))
    · exact (hsuffix d hd).1
  have hnum : Token.ofNumber? (Nat.toDigits 10 n ++ suffix) =
      some (.number n (String.ofList suffix)) := by
    simp [Token.ofNumber?, htake, Nat.ofDigitChars_ten_toDigits]
  rw [hcs] at hnum ⊢
  refine of_first c (more ++ suffix) (some _) ?_ h
  simp only [first, isBlank_eq_false (isWordChar_of_isDigit hc), hc, hmore]
  simpa using hnum

/-- These signs are the only ones with their first character. -/
theorem lone {c : Char} {s : Sign}
    (hc : (c, s) ∈ [('(', Sign.parenL), (')', .parenR), ('\x7b', .braceL), ('\x7d', .braceR),
      (';', .semicolon), (',', .comma), ('?', .question)])
    (h : Reads rest ts) : Reads (c :: rest) (.sign s :: ts) := by
  refine of_first c [] (some (.sign s)) ?_ h
  simp only [List.mem_cons, Prod.mk.injEq, List.not_mem_nil, or_false] at hc
  rcases hc with ⟨rfl, rfl⟩ | ⟨rfl, rfl⟩ | ⟨rfl, rfl⟩ | ⟨rfl, rfl⟩ | ⟨rfl, rfl⟩ | ⟨rfl, rfl⟩ |
    ⟨rfl, rfl⟩ <;> rfl

theorem parenL (h : Reads rest ts) : Reads ('(' :: rest) (.sign .parenL :: ts) :=
  h.lone (by simp)

theorem parenR (h : Reads rest ts) : Reads (')' :: rest) (.sign .parenR :: ts) :=
  h.lone (by simp)

theorem braceL (h : Reads rest ts) : Reads ('\x7b' :: rest) (.sign .braceL :: ts) :=
  h.lone (by simp)

theorem braceR (h : Reads rest ts) : Reads ('\x7d' :: rest) (.sign .braceR :: ts) :=
  h.lone (by simp)

theorem semicolon (h : Reads rest ts) : Reads (';' :: rest) (.sign .semicolon :: ts) :=
  h.lone (by simp)

end Reads

end WhileLang.C
