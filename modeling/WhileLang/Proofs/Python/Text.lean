import WhileLang.Operator
import WhileLang.Proofs.Token.Boundary

/-!
# `WhileLang/Proofs/Python/Text.lean` — a line of Python as a sequence of tokens

What a text means in Python is defined in this directory, for the part of the language that programs
are compiled to and **without reference to the compiler**: this file cuts a line into tokens,
`Layout.lean` makes blocks of the lines, `Reader.lean` reads the whole as a program, and
`Machine.lean` runs it.

A line is cut as the language reference says: blanks only separate, and each token is the longest
one that its first character begins. All signs of the language are in the table, also those for
which no rule has a use, because `**` must not pass for two signs; the same goes for its reserved
words. A line with anything else in it (a comment, a number with a fraction, an escape in a string,
a string in other quotation marks) is not read at all.
-/

set_option autoImplicit false

namespace WhileLang.Python

/-- The words that are not names, apart from operators. `print` is a function, and has no other use
here. -/
inductive Keyword where
  | if | else | while | pass | true | false | print
  | other
deriving DecidableEq, Repr

inductive Sign where
  | parenL | parenR | colon | assign | not
  | op (op : BinaryOp)
  | other
deriving DecidableEq, Repr

inductive Token where
  | keyword (k : Keyword)
  | name (text : String)
  | number (value : Nat)
  /-- A string literal: what is between its quotation marks. -/
  | string (content : List Char)
  /-- A sign, or one of the words `and`, `or` and `not`. -/
  | sign (s : Sign)
  /-- The end of a line. -/
  | newline
  /-- A block begins here. -/
  | indent
  /-- A block has ended here. -/
  | dedent
deriving DecidableEq, Repr

/-- How the words are written that there is a use for. -/
def Keyword.text : Keyword → String
  | .if => "if"
  | .else => "else"
  | .while => "while"
  | .pass => "pass"
  | .true => "True"
  | .false => "False"
  | .print => "print"
  | .other => ""

def reserved : List (String × Token) :=
  [("and", .sign (.op .and)), ("or", .sign (.op .or)), ("not", .sign .not)] ++
  [Keyword.if, .else, .while, .pass, .true, .false, .print].map (fun k => (k.text, .keyword k)) ++
  ["None", "as", "assert", "async", "await", "break", "class", "continue", "def", "del", "elif",
   "except", "finally", "for", "from", "global", "import", "in", "is", "lambda", "nonlocal",
   "raise", "return", "try", "with", "yield"].map (·, .keyword .other)

/-- The signs, each before those it begins with. -/
def signs : List (List Char × Sign) :=
  ["...", "**=", "//=", ">>=", "<<=", "->", ":=", "**", "//", ">>", "<<", "+=", "-=", "*=", "/=",
    "%=", "&=", "|=", "^=", "@="].map (·.toList, .other) ++
  [(['<', '='], .op .le), (['>', '='], .op .ge), (['=', '='], .op .eq), (['!', '='], .op .ne),
   (['<'], .op .lt), (['>'], .op .gt), (['+'], .op .add), (['-'], .op .sub), (['*'], .op .mul),
   (['='], .assign), (['('], .parenL), ([')'], .parenR), ([':'], .colon)] ++
  ["[", "]", "\x7b", "\x7d", ",", ";", ".", "@", "/", "%", "&", "|", "^", "~"].map
    (·.toList, .other)

/-- What may stand before a line and between tokens. -/
def isBlank (c : Char) : Bool :=
  c = ' ' || c = '\t'

def isNameChar (c : Char) : Bool :=
  c.isAlphanum || c = '_'

def Token.ofWord (word : String) : Token :=
  (reserved.lookup word).getD (.name word)

/-- The number that these characters spell, unless there are zeros in front or other characters than
digits. -/
def Token.ofNumber? (chars : List Char) : Option Token :=
  let value := Nat.ofDigitChars 10 chars 0
  if Nat.toDigits 10 value = chars then some (.number value) else none

/-- The number or the word that these characters spell. -/
def Token.ofNameChars? (chars : List Char) : Option Token :=
  if chars.head?.any Char.isDigit then ofNumber? chars else some (ofWord (String.ofList chars))

/-- What stands between the quotation marks of a string literal, read after the first of them, and
how many characters it takes with the second. -/
def literal : List Char → Option (List Char × Nat)
  | '"' :: _ => some ([], 1)
  | '\\' :: _ | '\n' :: _ | [] => none
  | c :: rest => (literal rest).map fun (content, n) => (c :: content, n + 1)

/-- What `c` begins, and how many of the characters after it belong to that. A blank is no token. -/
def first (c : Char) (rest : List Char) : Option (Option Token × Nat) :=
  if isBlank c then some (none, 0)
  else if isNameChar c then
    let more := rest.takeWhile isNameChar
    -- letters before a quotation mark say how the string is to be read, and are no word
    if rest[more.length]? = some '"' then none
    else (Token.ofNameChars? (c :: more)).map fun token => (some token, more.length)
  else if c = '"' then
    -- two quotation marks are an empty string, or begin one that ends with three
    ((literal rest).filter fun s => s.1 ≠ []).map fun (content, n) => (some (.string content), n)
  else
    (signs.find? fun s => s.1.isPrefixOf (c :: rest)).map fun (chars, s) =>
      (some (.sign s), chars.length - 1)

/-- The tokens of a line of which the first `skip` characters are already taken. -/
def scan : Nat → List Char → Option (List Token)
  | _, [] => some []
  | skip + 1, _ :: rest => scan skip rest
  | 0, c :: rest => do
    let (token?, n) ← first c rest
    let tokens ← scan n rest
    return token?.toList ++ tokens

def tokens (line : List Char) : Option (List Token) :=
  scan 0 line

/-! ## Lines that fall into given tokens -/

/-- A line, or the end of one, falls into these tokens. -/
def Reads (text : List Char) (ts : List Token) : Prop :=
  tokens text = some ts

/-- The text does not go on with a word, nor with a string. -/
abbrev Stops : List Char → Prop := Boundary fun c => isNameChar c || c = '"'

theorem isNameChar_of_isDigit {c : Char} (h : c.isDigit = true) : isNameChar c = true := by
  simp [isNameChar, Char.isAlphanum, h]

theorem isBlank_eq_false {c : Char} (h : isNameChar c = true) : isBlank c = false := by
  rw [Bool.eq_false_iff]
  intro hb
  simp only [isBlank, Bool.or_eq_true, decide_eq_true_eq] at hb
  rcases hb with rfl | rfl <;> exact absurd h (by decide)

theorem scan_eq_drop (skip : Nat) (text : List Char) :
    scan skip text = tokens (text.drop skip) := by
  induction text generalizing skip with
  | nil => cases skip <;> rfl
  | cons c rest ih =>
    cases skip with
    | zero => rfl
    | succ skip => exact ih skip

namespace Reads

variable {rest : List Char} {ts : List Token}

theorem nil : Reads [] [] := rfl

theorem of_first (c : Char) (more : List Char) (token? : Option Token)
    (hf : first c (more ++ rest) = some (token?, more.length)) (h : Reads rest ts) :
    Reads (c :: (more ++ rest)) (token?.toList ++ ts) := by
  have hrest : scan more.length (more ++ rest) = some ts := by
    rw [scan_eq_drop, List.drop_left]
    exact h
  show (first c (more ++ rest)).bind _ = _
  rw [hf]
  simp [hrest]

theorem blank {c : Char} (hc : isBlank c = true) (h : Reads rest ts) : Reads (c :: rest) ts :=
  of_first c [] none (by simp [first, hc]) h

theorem space (h : Reads rest ts) : Reads (' ' :: rest) ts := h.blank (by decide)

theorem blanks {cs : List Char} (hc : ∀ c ∈ cs, isBlank c = true) (h : Reads rest ts) :
    Reads (cs ++ rest) ts := by
  induction cs with
  | nil => exact h
  | cons c cs ih =>
    exact (ih fun d hd => hc d (List.mem_cons_of_mem _ hd)).blank (hc c (List.mem_cons_self ..))

/-- Characters that may belong together do so when the text does not go on. -/
theorem of_nameChars {c : Char} {more : List Char} {token : Token}
    (hm : ∀ d ∈ c :: more, isNameChar d = true)
    (ht : Token.ofNameChars? (c :: more) = some token) (hs : Stops rest) (h : Reads rest ts) :
    Reads (c :: more ++ rest) (token :: ts) := by
  have hc := hm c (List.mem_cons_self ..)
  have hmore : (more ++ rest).takeWhile isNameChar = more :=
    takeWhile_append_of_boundary (fun d hd => by simp [hd])
      (fun d hd => hm d (List.mem_cons_of_mem _ hd)) hs
  have hquote : (more ++ rest)[more.length]? ≠ some '"' := by
    rw [List.getElem?_append_right (Nat.le_refl _), Nat.sub_self, ← List.head?_eq_getElem?]
    intro hq
    simpa using hs '"' hq
  refine of_first c more (some token) ?_ h
  simp only [first, isBlank_eq_false hc, hc, hmore, hquote, ht]
  rfl

theorem word {c : Char} {more : List Char} (hc : c.isDigit = false)
    (hm : ∀ d ∈ c :: more, isNameChar d = true) (hs : Stops rest) (h : Reads rest ts) :
    Reads (c :: more ++ rest) (.ofWord (String.ofList (c :: more)) :: ts) := by
  refine h.of_nameChars hm ?_ hs
  rw [Token.ofNameChars?, if_neg (by simp [hc])]

theorem keyword {k : Keyword} (hk : k ≠ .other) (hs : Stops rest) (h : Reads rest ts) :
    Reads (k.text.toList ++ rest) (.keyword k :: ts) := by
  obtain ⟨c, more, hcs, hc, hm, hw⟩ : ∃ c more, k.text.toList = c :: more ∧ c.isDigit = false ∧
      (∀ d ∈ c :: more, isNameChar d = true) ∧ Token.ofWord k.text = .keyword k := by
    cases k <;>
      first
        | exact absurd rfl hk
        | exact ⟨_, _, rfl, by decide, List.all_eq_true.1 (by decide), by decide⟩
  have hr := h.word hc hm hs
  rwa [← hcs, String.ofList_toList, hw] at hr

/-- A number is read as written. -/
theorem number (n : Nat) (hs : Stops rest) (h : Reads rest ts) :
    Reads (Nat.toDigits 10 n ++ rest) (.number n :: ts) := by
  have hnum : Token.ofNumber? (Nat.toDigits 10 n) = some (.number n) := by
    simp [Token.ofNumber?, Nat.ofDigitChars_ten_toDigits]
  obtain ⟨c, more, hcs, hdigits⟩ := exists_toDigits_eq_cons n
  rw [hcs] at hnum ⊢
  refine h.of_nameChars (fun d hd => isNameChar_of_isDigit (hdigits d hd)) ?_ hs
  rw [Token.ofNameChars?, if_pos (by simp [hdigits c (List.mem_cons_self ..)]), hnum]

/-- These signs are the only ones with their first character. -/
theorem lone {c : Char} {s : Sign}
    (hc : (c, s) ∈ [('(', Sign.parenL), (')', .parenR)])
    (h : Reads rest ts) : Reads (c :: rest) (.sign s :: ts) := by
  refine of_first c [] (some (.sign s)) ?_ h
  simp only [List.mem_cons, Prod.mk.injEq, List.not_mem_nil, or_false] at hc
  rcases hc with ⟨rfl, rfl⟩ | ⟨rfl, rfl⟩ <;> rfl

theorem parenL (h : Reads rest ts) : Reads ('(' :: rest) (.sign .parenL :: ts) :=
  h.lone (by simp)

theorem parenR (h : Reads rest ts) : Reads (')' :: rest) (.sign .parenR :: ts) :=
  h.lone (by simp)

end Reads

/-! ## No token goes over the end of a line -/

theorem newline_notMem_takeWhile (text : List Char) : '\n' ∉ text.takeWhile isNameChar := by
  intro h
  have hn := List.mem_takeWhile_imp h
  exact absurd hn (by decide)

theorem newline_notMem_literal {text content : List Char} {n : Nat}
    (h : literal text = some (content, n)) : '\n' ∉ text.take n := by
  induction text using literal.induct generalizing content n with
  | case1 rest =>
    obtain ⟨-, rfl⟩ := Prod.mk.inj (Option.some.inj h)
    simp
  | case2 rest => cases h
  | case3 rest => cases h
  | case4 => cases h
  | case5 c rest hquote hback hnewline ih =>
    rw [literal, Option.map_eq_some_iff] at h
    · obtain ⟨⟨inner, m⟩, hin, hm⟩ := h
      obtain ⟨-, rfl⟩ := Prod.mk.inj hm
      rw [List.take_succ_cons, List.mem_cons, not_or]
      exact ⟨fun hc => hnewline hc.symm, ih hin⟩
    all_goals assumption

/-- Neither the first character of a token is a newline nor any of the others. -/
theorem newline_notMem_first {c : Char} {rest : List Char} {token? : Option Token} {n : Nat}
    (h : first c rest = some (token?, n)) : '\n' ∉ c :: rest.take n := by
  have hsigns : ∀ s ∈ signs, s.1 ≠ [] ∧ '\n' ∉ s.1 := by decide
  have hne : ∀ p : Char → Bool, p '\n' = false → p c = true → '\n' ≠ c := by
    rintro p hp hc rfl
    simp [hp] at hc
  unfold first at h
  split at h
  · rename_i hc
    obtain ⟨-, rfl⟩ := Prod.mk.inj (Option.some.inj h)
    simpa using hne isBlank (by decide) hc
  split at h
  · rename_i hc
    simp only at h
    split at h
    · cases h
    · obtain ⟨token, -, ht⟩ := Option.map_eq_some_iff.1 h
      obtain ⟨-, rfl⟩ := Prod.mk.inj ht
      rw [← List.prefix_iff_eq_take.1 (List.takeWhile_prefix isNameChar), List.mem_cons, not_or]
      exact ⟨hne isNameChar (by decide) hc, newline_notMem_takeWhile rest⟩
  split at h
  · rename_i hc
    obtain ⟨⟨content, m⟩, hs, hm⟩ := Option.map_eq_some_iff.1 h
    obtain ⟨-, rfl⟩ := Prod.mk.inj hm
    rw [List.mem_cons, not_or, hc]
    exact ⟨by decide, newline_notMem_literal (Option.filter_eq_some_iff.1 hs).1⟩
  · obtain ⟨⟨chars, s⟩, hs, hm⟩ := Option.map_eq_some_iff.1 h
    obtain ⟨-, rfl⟩ := Prod.mk.inj hm
    have hprefix : chars <+: c :: rest := by simpa using List.find?_some hs
    obtain ⟨hnil, hmem⟩ := hsigns _ (List.mem_of_find?_eq_some hs)
    cases chars with
    | nil => exact absurd rfl hnil
    | cons d chars =>
      obtain ⟨rfl, htail⟩ := List.cons_prefix_cons.1 hprefix
      rwa [List.length_cons, Nat.add_sub_cancel, ← List.prefix_iff_eq_take.1 htail]

/-- **A line that can be read is one line.** -/
theorem Reads.newline_notMem {text : List Char} {ts : List Token} (h : Reads text ts) :
    '\n' ∉ text := by
  suffices hscan : ∀ skip ts, scan skip text = some ts → '\n' ∉ text.drop skip from hscan 0 ts h
  clear h ts
  induction text with
  | nil => simp
  | cons c rest ih =>
    intro skip ts h
    cases skip with
    | succ skip => exact ih skip ts h
    | zero =>
      obtain ⟨⟨token?, n⟩, hf, h⟩ := Option.bind_eq_some_iff.1 h
      obtain ⟨more, hmore, -⟩ := Option.bind_eq_some_iff.1 h
      -- the token takes `n` characters, and the rest of the line begins after them
      have htoken := newline_notMem_first hf
      have hrest := ih n more hmore
      rw [List.mem_cons, not_or] at htoken
      rw [List.drop_zero, ← List.take_append_drop n rest, List.mem_cons, List.mem_append]
      rintro (hc | ht | hd)
      · exact htoken.1 hc
      · exact htoken.2 ht
      · exact hrest hd

end WhileLang.Python
