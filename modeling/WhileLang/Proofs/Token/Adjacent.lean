import Mathlib.Data.List.Chain
import WhileLang.Proofs.Token.Spacing
import WhileLang.Proofs.Token.Tiling
import WhileLang.Proofs.Tree.Canonical

/-!
# `WhileLang/Proofs/Token/Adjacent.lean` — tokens written one after the other

A list of tokens is written down with some blanks behind each. Two tokens **merge** when the first
character of the one is a character that the other would go on with: a letter or digit behind a
word, a digit behind a number, an equals sign behind `=`, `<` or `>`. What was written reads as the
same tokens **exactly if there are blanks between those that merge**
(`Lexer.tokens_ofSource_spaced_iff`), and no other blanks matter.

That blanks are enough is an induction over the list. That they are needed is counted: no token is
shorter than its canonical text, so where all tokens are read back, none has a character too many.
-/

set_option autoImplicit false

namespace WhileLang

namespace Lexeme

/-- The tokens that a source can have. -/
def IsSpelled : Lexeme → Prop
  | .mark m => m ∉ [.if, .else, .endOfFile]
  | .name x => IsName x
  | .literal v => 0 ≤ v

def IsWord : Lexeme → Prop
  | .mark m => m ∈ Mark.keywords
  | .name _ => True
  | .literal _ => False

def IsLiteral : Lexeme → Prop
  | .literal _ => True
  | .mark _ | .name _ => False

/-- With nothing between them the two are not read as what they are. -/
def Merges (a b : Lexeme) : Prop :=
  a.IsWord ∧ (b.IsWord ∨ b.IsLiteral) ∨ a.IsLiteral ∧ b.IsLiteral ∨
    a ∈ [.mark .assign, .mark .lt, .mark .gt] ∧ b ∈ [.mark .assign, .mark .eq]

instance (l : Lexeme) : Decidable l.IsWord :=
  match l with
  | .mark m => inferInstanceAs (Decidable (m ∈ Mark.keywords))
  | .name _ => .isTrue trivial
  | .literal _ => .isFalse id

instance (l : Lexeme) : Decidable l.IsLiteral :=
  match l with
  | .literal _ => .isTrue trivial
  | .mark _ | .name _ => .isFalse id

instance (a b : Lexeme) : Decidable (a.Merges b) :=
  inferInstanceAs (Decidable (_ ∨ _ ∨ _))

/-- The tokens as they are shown, each with the blanks behind it. -/
def spaced (items : List (Lexeme × String)) : String :=
  String.join (items.map fun i => i.1.text ++ i.2)

/-- The token goes on with this character, if that comes next. -/
def extendedBy : Lexeme → Char → Bool
  | .mark m, d =>
    if m ∈ Mark.keywords then d.isAlphanum else m ∈ [.assign, .lt, .gt] && d = '='
  | .name _, d => d.isAlphanum
  | .literal _, d => d.isDigit

/-- The text of a token is cut off as this token, at the first character that does not extend it. -/
structure CutOff (l : Lexeme) (c : Char) (more : List Char) : Prop where
  piece : Piece.ofText c more = .token (c :: more) l
  reaches : ∀ rest, ∃ extra, reach c (more ++ rest) = more ++ extra ∧
    (extra = [] ↔ Boundary l.extendedBy rest)

end Lexeme

theorem Boundary.takeWhile_eq_nil_iff {p : Char → Bool} {z : List Char} :
    z.takeWhile p = [] ↔ Boundary p z := by
  constructor
  · intro h c hc
    obtain ⟨rest, rfl⟩ := List.head?_eq_some_iff.1 hc
    rw [Bool.eq_false_iff]
    intro hp
    rw [List.takeWhile_cons_of_pos hp] at h
    cases h
  · exact takeWhile_eq_nil

theorem Mark.notMem_keywords {m : Mark} (hm : m ∈ Mark.operators) : m ∉ Mark.keywords := by
  intro hword
  cases m <;> first
    | exact absurd hm (by decide)
    | exact absurd hword (by decide)

theorem Mark.head_iff {m : Mark} {d : Char} {ds : List Char} (h : m ∉ [.if, .else, .endOfFile])
    (htext : m.text.toList = d :: ds) : (d.isAlpha ↔ m ∈ Mark.keywords) ∧
      ¬d.isDigit ∧ (d = '=' ↔ m ∈ [.assign, .eq]) := by
  revert h
  cases m <;> obtain ⟨rfl, -⟩ := List.cons.inj htext <;> decide

namespace Lexeme

variable {l : Lexeme} {c : Char} {more : List Char}

theorem cutOff_word {x : String} (hx : x.toList = c :: more) (hc : c.isAlpha = true)
    (hm : ∀ d ∈ more, d.isAlphanum = true) (hl : .ofWord x = l)
    (he : l.extendedBy = Char.isAlphanum) : l.CutOff c more where
  piece := by
    have hb : isBlank c = false := isBlank_eq_false_of_isAlphanum (by simp [Char.isAlphanum, hc])
    rw [Piece.ofText, hb, if_neg Bool.false_ne_true, if_pos hc, ← hx, String.ofList_toList, hl]
  reaches rest := by
    refine ⟨rest.takeWhile Char.isAlphanum, ?_, ?_⟩
    · rw [reach, if_pos hc, List.takeWhile_append_of_pos hm]
    · rw [he, Boundary.takeWhile_eq_nil_iff]

theorem cutOff_literal {v : Int64} (hv : 0 ≤ v) :
    ∃ c more, (literal v).text.toList = c :: more ∧ (∀ d ∈ c :: more, d.isDigit = true) ∧
      (literal v).CutOff c more := by
  have hneg : ¬v < 0 := Int64.not_lt.2 hv
  obtain ⟨c, more, hdigits, hd⟩ := exists_toDigits_eq_cons v.toInt.natAbs
  have htext : (literal v).text.toList = c :: more := by
    rw [← hdigits]
    exact (toList_toString_int64 v).trans (if_neg hneg)
  have hvalue : literalValue (c :: more) = v := by
    rw [literalValue, ← hdigits, Nat.ofDigitChars_ten_toDigits, ofNat_natAbs_of_nonneg hneg]
  have hc : c.isDigit = true := hd c (List.mem_cons_self ..)
  have ha : c.isAlpha = false := isAlpha_eq_false_of_isDigit hc
  have hb : isBlank c = false := isBlank_eq_false_of_isAlphanum (by simp [Char.isAlphanum, hc])
  refine ⟨c, more, htext, hd, ?_, fun rest => ⟨rest.takeWhile Char.isDigit, ?_, ?_⟩⟩
  · simp [Piece.ofText, hb, ha, hc, hvalue]
  · rw [reach, ha, if_neg Bool.false_ne_true, if_pos hc]
    exact List.takeWhile_append_of_pos fun d hm => hd d (List.mem_cons_of_mem _ hm)
  · exact Boundary.takeWhile_eq_nil_iff

/-- Only `=`, `<` and `>` go on, and only with one equals sign. -/
theorem extendedBy_operator {m : Mark} (hm : m ∈ Mark.operators) (d : Char) :
    (mark m).extendedBy d = true ↔ m ∈ [.assign, .lt, .gt] ∧ d = '=' := by
  rw [extendedBy, if_neg (Mark.notMem_keywords hm), Bool.and_eq_true, decide_eq_true_eq,
    decide_eq_true_eq]

theorem cutOff_operator {m : Mark} (hm : m ∈ Mark.operators) :
    ∃ c more, m.text.toList = c :: more ∧ (mark m).CutOff c more := by
  -- a finite check over the table; what is left is how far the sign reaches
  obtain ⟨c, more, htext, hp, ha, hd, hmore⟩ : ∃ c more, m.text.toList = c :: more ∧
      Piece.ofText c more = .token (c :: more) (.mark m) ∧ c.isAlpha = false ∧ c.isDigit = false ∧
      (more = [] ∧ (m ∈ [.assign, .lt, .gt] ↔ widens c = true) ∨
        more = ['='] ∧ widens c = true ∧ m ∉ [.assign, .lt, .gt]) := by
    cases m <;> first
      | exact absurd hm (by decide)
      | exact ⟨_, _, rfl, by decide, by decide, by decide, by decide⟩
  -- where the token has all that its first character can reach, nothing extends it
  have complete (hno : m ∉ [.assign, .lt, .gt]) (rest : List Char) :
      ([] : List Char) = [] ↔ Boundary (mark m).extendedBy rest := by
    refine iff_of_true rfl fun d _ => ?_
    rw [Bool.eq_false_iff]
    exact fun h => hno ((extendedBy_operator hm d).1 h).1
  refine ⟨c, more, htext, hp, fun rest => ?_⟩
  rw [reach, ha, hd, if_neg Bool.false_ne_true, if_neg Bool.false_ne_true]
  rcases hmore with ⟨rfl, hw⟩ | ⟨rfl, hw, hno⟩
  · by_cases hsign : m ∈ [.assign, .lt, .gt]
    · rw [if_pos (hw.1 hsign)]
      refine ⟨_, rfl, ?_⟩
      rw [Boundary.takeWhile_eq_nil_iff]
      simp only [Boundary, Bool.eq_false_iff, ne_eq, extendedBy_operator hm, hsign, true_and]
      cases rest <;> simp
    · rw [if_neg fun h => hsign (hw.2 h)]
      exact ⟨[], rfl, complete hsign rest⟩
  · rw [if_pos hw]
    exact ⟨[], rfl, complete hno rest⟩

theorem cutOff_keyword {m : Mark} (hm : m ∈ Mark.keywords) :
    ∃ c more, m.text.toList = c :: more ∧ (mark m).CutOff c more := by
  obtain ⟨c, more, htext, hc, hmore, hword⟩ : ∃ c more, m.text.toList = c :: more ∧
      c.isAlpha = true ∧ (∀ d ∈ more, d.isAlphanum = true) ∧ Mark.keyword? m.text = some m := by
    cases m <;> first
      | exact absurd hm (by decide)
      | exact ⟨_, _, rfl, by decide, List.all_eq_true.1 (by decide), by decide⟩
  have hextended : (mark m).extendedBy = Char.isAlphanum := funext fun _ => if_pos hm
  exact ⟨c, more, htext, cutOff_word htext hc hmore (by rw [ofWord, hword]) hextended⟩

/-- A mark that can be read is in one of the two tables. -/
theorem IsSpelled.mem_keywords_or_operators {m : Mark} (h : (mark m).IsSpelled) :
    m ∈ Mark.keywords ∨ m ∈ Mark.operators := by
  have h : m ∉ [.if, .else, .endOfFile] := h
  revert h
  cases m <;> decide

/-- Every token that a source can have is written so that it is cut off as what it is. -/
theorem IsSpelled.exists_cutOff (h : l.IsSpelled) :
    ∃ c more, l.text.toList = c :: more ∧ l.CutOff c more := by
  cases l with
  | mark m =>
    rcases h.mem_keywords_or_operators with hm | hm
    · exact cutOff_keyword hm
    · exact cutOff_operator hm
  | name x =>
    obtain ⟨c, more, hx, hc, hmore, hword⟩ := h
    exact ⟨c, more, hx, cutOff_word hx hc hmore (by rw [ofWord, hword]) rfl⟩
  | literal v =>
    obtain ⟨c, more, htext, -, hcut⟩ := cutOff_literal h
    exact ⟨c, more, htext, hcut⟩

/-! ## Which tokens merge -/

/-- What kind of token it is shows in the first character. -/
theorem IsSpelled.head_iff {b : Lexeme} {d : Char} {ds : List Char} (h : b.IsSpelled)
    (htext : b.text.toList = d :: ds) : (d.isAlpha = true ↔ b.IsWord) ∧
      (d.isDigit = true ↔ b.IsLiteral) ∧ (d = '=' ↔ b ∈ [.mark .assign, .mark .eq]) := by
  cases b with
  | mark m =>
    obtain ⟨halpha, hdigit, heq⟩ := Mark.head_iff h htext
    exact ⟨halpha, by simp [hdigit, IsLiteral], by simpa using heq⟩
  | name x =>
    obtain ⟨c, more, hx, hc, -⟩ := h
    obtain ⟨rfl, -⟩ := List.cons.inj (htext.symm.trans hx)
    refine ⟨iff_of_true hc trivial, ?_, ?_⟩
    · refine iff_of_false (fun hd => ?_) id
      rw [isAlpha_eq_false_of_isDigit hd] at hc
      cases hc
    · refine iff_of_false ?_ (by simp)
      rintro rfl
      cases hc
  | literal v =>
    obtain ⟨c, more, hv, hd, -⟩ := cutOff_literal h
    obtain ⟨rfl, -⟩ := List.cons.inj (htext.symm.trans hv)
    have hd : d.isDigit = true := hd d (List.mem_cons_self ..)
    refine ⟨?_, iff_of_true hd trivial, ?_⟩
    · rw [isAlpha_eq_false_of_isDigit hd]
      exact iff_of_false Bool.false_ne_true id
    · refine iff_of_false ?_ (by simp)
      rintro rfl
      cases hd

/-- The first character of a token extends the one before exactly if the two merge. -/
theorem extendedBy_iff_merges {a b : Lexeme} {d : Char} {ds : List Char} (ha : a.IsSpelled)
    (hb : b.IsSpelled) (htext : b.text.toList = d :: ds) :
    a.extendedBy d = true ↔ a.Merges b := by
  obtain ⟨halpha, hdigit, heq⟩ := hb.head_iff htext
  cases a with
  | mark m =>
    rcases ha.mem_keywords_or_operators with hm | hm
    · have hsign : m ∉ [.assign, .lt, .gt] := by
        intro hsign
        refine Mark.notMem_keywords ?_ hm
        exact (show [.assign, .lt, .gt] ⊆ Mark.operators by decide) hsign
      have hsign : ¬(mark m ∈ [mark .assign, .mark .lt, .mark .gt]) := by simpa using hsign
      rw [extendedBy, if_pos hm, Char.isAlphanum, Bool.or_eq_true, halpha, hdigit, Merges]
      simp only [IsWord, IsLiteral, hm, hsign, true_and, false_and, or_false]
    · have hword := Mark.notMem_keywords hm
      rw [extendedBy_operator hm, heq, Merges]
      simp [IsWord, IsLiteral, hword]
  | name x => simp [extendedBy, Merges, IsWord, IsLiteral, Char.isAlphanum, halpha, hdigit]
  | literal v => simp [extendedBy, Merges, IsWord, IsLiteral, hdigit]

theorem extendedBy_eq_false_of_isBlank {d : Char} (h : isBlank d = true) (l : Lexeme) :
    l.extendedBy d = false := by
  have hboundary : Boundary l.extendedBy [d] := by
    refine (Unreached.of_isBlank h []).boundary fun e he => ?_
    cases l with
    | mark m =>
      rw [extendedBy] at he
      split at he
      · exact .inl he
      · exact .inr (of_decide_eq_true (Bool.and_eq_true_iff.1 he).2)
    | name x => exact .inl he
    | literal v => exact .inl (Bool.or_eq_true_iff.2 (.inr he))
  exact hboundary d rfl

/-! ## Blanks where tokens merge are enough -/

/-- Tokens that a source can have, and blanks. -/
def AllSpelled (items : List (Lexeme × String)) : Prop :=
  ∀ i ∈ items, i.1.IsSpelled ∧ ∀ c ∈ i.2.toList, isBlank c = true

/-- Where two tokens merge, there are blanks between them. -/
def KeptApart (items : List (Lexeme × String)) : Prop :=
  items.IsChain fun i j => i.1.Merges j.1 → i.2 ≠ ""

theorem toList_spaced_cons (l : Lexeme) (gap : String) (items : List (Lexeme × String)) :
    (spaced ((l, gap) :: items)).toList =
      l.text.toList ++ (gap.toList ++ (spaced items).toList) := by
  simp [spaced, String.join_cons]

/-- What is behind a token does not extend it, if there are blanks or the next does not merge. -/
theorem boundary_spaced_iff {gap : String} {items : List (Lexeme × String)} (hl : l.IsSpelled)
    (hgap : ∀ c ∈ gap.toList, isBlank c = true) (hs : AllSpelled items) :
    Boundary l.extendedBy (gap.toList ++ (spaced items).toList) ↔
      ∀ j ∈ items.head?, l.Merges j.1 → gap ≠ "" := by
  cases hcs : gap.toList with
  | nil =>
    obtain rfl : gap = "" := String.toList_eq_nil_iff.1 hcs
    cases items with
    | nil => simp [spaced, Boundary.nil]
    | cons j items =>
      obtain ⟨b, gap⟩ := j
      have hb := (hs _ (List.mem_cons_self ..)).1
      obtain ⟨d, ds, htext, -⟩ := hb.exists_cutOff
      rw [toList_spaced_cons, htext]
      have hmerges := extendedBy_iff_merges hl hb htext
      simp [Boundary, ← hmerges]
  | cons c cs =>
    have hne : gap ≠ "" := by
      rintro rfl
      cases hcs
    have hc := extendedBy_eq_false_of_isBlank (hgap c (by rw [hcs]; exact List.mem_cons_self ..)) l
    exact iff_of_true (.cons hc _) fun _ _ _ => hne

theorem reads_spaced {items : List (Lexeme × String)} (hs : AllSpelled items)
    (hapart : KeptApart items) : Reads (spaced items).toList (items.map (·.1)) := by
  induction items with
  | nil => exact .nil
  | cons i items ih =>
    obtain ⟨l, gap⟩ := i
    obtain ⟨⟨hl, hgap⟩, hs⟩ := List.forall_mem_cons.1 hs
    obtain ⟨hnext, hapart⟩ := List.isChain_cons.1 hapart
    obtain ⟨c, more, htext, hcut⟩ := hl.exists_cutOff
    obtain ⟨extra, hreach, hextra⟩ := hcut.reaches (gap.toList ++ (spaced items).toList)
    obtain rfl := hextra.2 ((boundary_spaced_iff hl hgap hs).2 hnext)
    rw [List.append_nil] at hreach
    rw [toList_spaced_cons, htext]
    exact .token hreach hcut.piece (.blanks hgap (ih hs hapart))

/-! ## Blanks where tokens merge are needed -/

/-- The number of characters that are not blank. -/
def countSolid (text : List Char) : Nat :=
  text.countP fun c => !isBlank c

theorem countSolid_append (xs ys : List Char) :
    countSolid (xs ++ ys) = countSolid xs + countSolid ys :=
  List.countP_append

theorem countSolid_blanks {w : List Char} (h : ∀ c ∈ w, isBlank c = true) : countSolid w = 0 := by
  rw [countSolid, List.countP_eq_zero]
  intro c hc
  simp [h c hc]

end Lexeme

open Lexeme

/-- No character of a token is blank. -/
theorem TokenText.countSolid_eq {spelling : List Char} {l : Lexeme} (h : TokenText spelling l) :
    countSolid spelling = spelling.length := by
  suffices hsolid : ∀ c ∈ spelling, isBlank c = false by
    rw [countSolid, List.countP_eq_length]
    intro c hc
    simp [hsolid c hc]
  cases h with
  | @word c more hc hm =>
    refine List.forall_mem_cons.2 ⟨isBlank_eq_false_of_isAlphanum ?_, fun d hd =>
      isBlank_eq_false_of_isAlphanum (hm d hd)⟩
    exact Bool.or_eq_true_iff.2 (.inl hc)
  | number hd =>
    intro d hm
    exact isBlank_eq_false_of_isAlphanum (Bool.or_eq_true_iff.2 (.inr (hd d hm)))
  | @operator m hm =>
    have htable : m.text.toList.all (fun c => !isBlank c) = true := by
      cases m <;> first
        | exact absurd hm (by decide)
        | decide
    intro c hc
    simpa using List.all_eq_true.1 htable c hc

/-- What is not larger than what some digits denote has no more digits. -/
theorem length_toDigits_le {ds : List Char} (h : ∀ d ∈ ds, d.isDigit = true) (hne : ds ≠ [])
    {n : Nat} (hn : n ≤ Nat.ofDigitChars 10 ds 0) : (Nat.toDigits 10 n).length ≤ ds.length := by
  have hlt : Nat.ofDigitChars 10 ds 0 < 10 ^ ds.length := by
    clear hn hne
    induction ds using List.reverseRecOn with
    | nil => decide
    | append_singleton ds d ih =>
      have hlt := ih fun e he => h e (List.mem_append_left _ he)
      have hd : 48 ≤ d.toNat ∧ d.toNat ≤ 57 := Char.isDigit_iff_toNat.1 (h d (by simp))
      rw [Nat.ofDigitChars_append, Nat.ofDigitChars_cons, Nat.ofDigitChars_nil,
        List.length_append, List.length_singleton, Nat.pow_succ]
      have hzero : '0'.toNat = 48 := rfl
      omega
  exact (Nat.length_toDigits_le_iff (by decide) (List.length_pos_iff.2 hne)).2 (hn.trans_lt hlt)

theorem Lexeme.text_ofWord (word : String) : (Lexeme.ofWord word).text = word := by
  unfold Lexeme.ofWord
  split
  · rename_i m hm
    have htext := List.find?_some hm
    exact of_decide_eq_true htext
  · rfl

/-- A nonnegative literal is not larger than what its digits denote. -/
theorem natAbs_literalValue_le {digits : List Char} (h : 0 ≤ literalValue digits) :
    (literalValue digits).toInt.natAbs ≤ Nat.ofDigitChars 10 digits 0 := by
  rw [Int64.le_iff_toInt_le, Int64.toInt_zero] at h
  have hsize : (Int64.size : Int) = 18446744073709551616 := rfl
  rw [literalValue, Int64.toInt_ofNat', Int.bmod_def, hsize] at h ⊢
  omega

/-- **No token is spelled shorter than it is shown.** -/
theorem TokenText.length_text_le {spelling : List Char} {l : Lexeme} (h : TokenText spelling l)
    (hl : l.IsSpelled) : l.text.toList.length ≤ spelling.length := by
  cases h with
  | word hc hm =>
    rw [Lexeme.text_ofWord, String.toList_ofList]
  | @number c more hd =>
    have hneg : ¬literalValue (c :: more) < 0 := Int64.not_lt.2 hl
    have htext : (literal (literalValue (c :: more))).text.toList =
        Nat.toDigits 10 (literalValue (c :: more)).toInt.natAbs :=
      (toList_toString_int64 _).trans (if_neg hneg)
    rw [htext]
    exact length_toDigits_le hd (List.cons_ne_nil c more) (natAbs_literalValue_le hl)
  | operator hm => exact Nat.le_refl _

/-- The tokens of a text are together not shown longer than they are spelled. -/
theorem length_texts_le {ps : List Piece}
    (hps : ∀ spelling l, .token spelling l ∈ ps → TokenText spelling l)
    (hl : ∀ l ∈ ps.filterMap Piece.lexeme?, l.IsSpelled) :
    ((ps.filterMap Piece.lexeme?).flatMap (·.text.toList)).length ≤
      countSolid (ps.flatMap Piece.text) := by
  induction ps with
  | nil => exact Nat.zero_le _
  | cons piece ps ih =>
    have hrest := ih (fun spelling l h => hps spelling l (List.mem_cons_of_mem _ h))
    rw [List.flatMap_cons, countSolid_append]
    cases piece with
    | blank c | stray c => exact (hrest hl).trans (Nat.le_add_left ..)
    | token spelling l =>
      have hlexemes : (Piece.token spelling l :: ps).filterMap Piece.lexeme? =
          l :: ps.filterMap Piece.lexeme? := rfl
      rw [hlexemes] at hl ⊢
      obtain ⟨hl, hls⟩ := List.forall_mem_cons.1 hl
      have htoken := hps spelling l (List.mem_cons_self ..)
      have hsolid : countSolid (Piece.token spelling l).text = spelling.length :=
        htoken.countSolid_eq
      rw [hsolid, List.flatMap_cons, List.length_append]
      exact Nat.add_le_add (htoken.length_text_le hl) (hrest hls)

namespace Lexeme

theorem CutOff.tokenText {l : Lexeme} {c : Char} {more : List Char} (h : l.CutOff c more) :
    TokenText (c :: more) l := by
  obtain ⟨extra, hreach, hextra⟩ := h.reaches []
  obtain rfl := hextra.2 .nil
  rw [List.append_nil] at hreach
  have hpiece := h.piece
  rw [← hreach] at hpiece
  rw [← hreach]
  exact tokenText_of_ofText hpiece

theorem CutOff.isBlank_eq_false {l : Lexeme} {c : Char} {more : List Char} (h : l.CutOff c more) :
    isBlank c = false := by
  rw [Bool.eq_false_iff]
  intro hb
  have hpiece := h.piece
  rw [Piece.ofText, if_pos hb] at hpiece
  cases hpiece

theorem countSolid_spaced {items : List (Lexeme × String)} (hs : AllSpelled items) :
    countSolid (spaced items).toList = ((items.map (·.1)).flatMap (·.text.toList)).length := by
  induction items with
  | nil => rfl
  | cons i items ih =>
    obtain ⟨l, gap⟩ := i
    obtain ⟨⟨hl, hgap⟩, hs⟩ := List.forall_mem_cons.1 hs
    obtain ⟨c, more, htext, hcut⟩ := hl.exists_cutOff
    have hsolid : countSolid l.text.toList = l.text.toList.length := by
      rw [htext]
      exact hcut.tokenText.countSolid_eq
    rw [toList_spaced_cons, countSolid_append, countSolid_append, countSolid_blanks hgap, hsolid,
      ih hs, Nat.zero_add, List.map_cons, List.flatMap_cons, List.length_append]

end Lexeme

/-- The first token of a text is what its first character reaches, and the others are behind. -/
theorem Reads.of_cons {c : Char} {rest : List Char} {l : Lexeme} {ls : List Lexeme}
    (hc : isBlank c = false) (h : Reads (c :: rest) (l :: ls)) :
    TokenText (c :: reach c rest) l ∧ Reads (rest.drop (reach c rest).length) ls := by
  obtain ⟨hlexemes, hstray⟩ := h
  have htext := Piece.text_ofText_reach c rest
  rw [lexemes, pieces_cons] at hlexemes
  rw [pieces_cons] at hstray
  cases hp : Piece.ofText c (reach c rest) with
  | blank d =>
    have hd := isBlank_of_ofText hp
    rw [hp] at htext
    obtain rfl : d = c := (List.cons.inj htext).1
    rw [hd] at hc
    cases hc
  | stray d => exact absurd (List.mem_cons_self ..) (hp ▸ hstray d)
  | token spelling l' =>
    rw [hp] at htext hlexemes
    obtain rfl : spelling = c :: reach c rest := htext
    obtain ⟨rfl, hls⟩ := List.cons.inj hlexemes
    exact ⟨tokenText_of_ofText hp, hls, fun d hd => hstray d (List.mem_cons_of_mem _ hd)⟩

theorem Reads.of_blanks {w y : List Char} {ls : List Lexeme} (hw : ∀ c ∈ w, isBlank c = true)
    (h : Reads (w ++ y) ls) : Reads y ls := by
  obtain ⟨hlexemes, hstray⟩ := h
  rw [lexemes, pieces_blanks hw, List.filterMap_append] at hlexemes
  rw [pieces_blanks hw] at hstray
  refine ⟨?_, fun d hd => hstray d (List.mem_append_right _ hd)⟩
  rw [← hlexemes, List.filterMap_map]
  simp [Piece.lexeme?, lexemes, Function.comp_def]

theorem Reads.length_texts_le {text : List Char} {ls : List Lexeme} (h : Reads text ls)
    (hl : ∀ l ∈ ls, l.IsSpelled) :
    (ls.flatMap (·.text.toList)).length ≤ countSolid text := by
  obtain ⟨rfl, -⟩ := h
  have hle := WhileLang.length_texts_le (fun _ _ => tokenText_of_mem_pieces) hl
  rwa [text_pieces] at hle

namespace Lexeme

/-- A token that is read back took nothing from those behind it. -/
theorem extra_eq_nil {l : Lexeme} {gap : String} {items : List (Lexeme × String)} {c : Char}
    {more extra : List Char} (hcut : l.CutOff c more)
    (hgap : ∀ c ∈ gap.toList, isBlank c = true) (hs : AllSpelled items)
    (hreach : reach c (more ++ (gap.toList ++ (spaced items).toList)) = more ++ extra)
    (h : Reads (c :: (more ++ (gap.toList ++ (spaced items).toList)))
      (l :: items.map (·.1))) : extra = [] := by
  obtain ⟨htoken, hrest⟩ := h.of_cons hcut.isBlank_eq_false
  have hsplit := reach_append_drop c (more ++ (gap.toList ++ (spaced items).toList))
  rw [hreach] at htoken hsplit hrest
  rw [List.append_assoc] at hsplit
  have hbehind := congrArg countSolid (List.append_cancel_left hsplit)
  rw [countSolid_append, countSolid_append, countSolid_blanks hgap, countSolid_spaced hs,
    Nat.zero_add] at hbehind
  -- the tokens behind it need all the characters that were written behind it
  have hneeded := hrest.length_texts_le fun l hl => by
    obtain ⟨i, hi, rfl⟩ := List.mem_map.1 hl
    exact (hs i hi).1
  have hall := htoken.countSolid_eq
  rw [← List.cons_append, countSolid_append, hcut.tokenText.countSolid_eq, List.length_append]
    at hall
  apply List.eq_nil_of_length_eq_zero
  omega

theorem keptApart_of_reads {items : List (Lexeme × String)} (hs : AllSpelled items)
    (h : Reads (spaced items).toList (items.map (·.1))) : KeptApart items := by
  induction items with
  | nil => exact .nil
  | cons i items ih =>
    obtain ⟨l, gap⟩ := i
    obtain ⟨⟨hl, hgap⟩, hs⟩ := List.forall_mem_cons.1 hs
    obtain ⟨c, more, htext, hcut⟩ := hl.exists_cutOff
    obtain ⟨extra, hreach, hextra⟩ := hcut.reaches (gap.toList ++ (spaced items).toList)
    rw [toList_spaced_cons, htext] at h
    obtain rfl := extra_eq_nil hcut hgap hs hreach h
    have hrest : Reads _ (items.map (·.1)) := (h.of_cons hcut.isBlank_eq_false).2
    rw [List.append_eq, hreach, List.append_nil, List.drop_left] at hrest
    refine List.isChain_cons.2 ⟨?_, ih hs (hrest.of_blanks hgap)⟩
    exact (boundary_spaced_iff hl hgap hs).1 (hextra.1 rfl)

theorem toNat_lt_of_mem_spaced {items : List (Lexeme × String)} (hs : AllSpelled items) :
    ∀ c ∈ (spaced items).toList, c.toNat < 128 := by
  induction items with
  | nil => nofun
  | cons i items ih =>
    obtain ⟨hi, hs⟩ := List.forall_mem_cons.1 hs
    have hitem : (spaced (i :: items)).toList = (spaced [i]).toList ++ (spaced items).toList := by
      rw [toList_spaced_cons, toList_spaced_cons]
      simp [spaced]
    rw [hitem]
    have hone : AllSpelled [i] := List.forall_mem_singleton.2 hi
    exact List.forall_mem_append.2 ⟨(reads_spaced hone (.singleton i)).toNat_lt, ih hs⟩

end Lexeme

/-- **Tokens written one after the other read as they are, exactly if those that merge are kept
apart by blanks.** -/
theorem Lexer.tokens_ofSource_spaced_iff (file : FileId) (items : List (Lexeme × String))
    (hl : ∀ i ∈ items, i.1.IsSpelled) (hgap : ∀ i ∈ items, ∀ c ∈ i.2.toList, isBlank c = true) :
    let lexer := ofSource file (.ofString (Lexeme.spaced items))
    (lexer.diagnostics = [] ∧
      lexer.tokens.map (·.lexeme) = items.map (·.1) ++ [.mark .endOfFile]) ↔
      items.IsChain fun i j => i.1.Merges j.1 → i.2 ≠ "" := by
  intro lexer
  have hs : Lexeme.AllSpelled items := fun i hi => ⟨hl i hi, hgap i hi⟩
  have hchars := chars_ofString_of_ascii (Lexeme.toNat_lt_of_mem_spaced hs)
  have hreads : (lexer.diagnostics = [] ∧
      lexer.tokens.map (·.lexeme) = items.map (·.1) ++ [.mark .endOfFile]) ↔
      Reads (Lexeme.spaced items).toList (items.map (·.1)) := by
    rw [lexemes_tokens_ofSource, hchars, List.append_left_inj, and_comm]
    refine and_congr_right' ?_
    rw [← hchars]
    exact diagnostics_ofPieces_eq_nil_iff ..
  rw [hreads]
  constructor
  · exact Lexeme.keptApart_of_reads hs
  · exact Lexeme.reads_spaced hs

/-- A line with a blank only where two tokens merge. -/
theorem Lexer.tokens_ofSource_spaced_dense :
    let items : List (Lexeme × String) := [(.mark .while, "\t"), (.name "x1", ""), (.mark .ne, ""),
      (.mark .assign, " "), (.mark .eq, ""), (.literal 7, ""), (.name "and1", "\n"),
      (.literal 0, "\r\n"), (.literal 9223372036854775807, ""), (.mark .gt, ""), (.mark .lt, "")]
    let lexer := ofSource ⟨0⟩ (.ofString (Lexeme.spaced items))
    (∀ i ∈ items, i.1.IsSpelled) ∧ (∀ i ∈ items, ∀ c ∈ i.2.toList, isBlank c = true) ∧
      lexer.diagnostics = [] ∧
      lexer.tokens.map (·.lexeme) = items.map (·.1) ++ [.mark .endOfFile] := by
  intro items lexer
  have hname (x : String) (c : Char) (more : List Char) (hx : x.toList = c :: more)
      (hc : c.isAlpha = true) (hm : more.all Char.isAlphanum = true)
      (hword : Mark.keyword? x = none) : IsName x :=
    ⟨c, more, hx, hc, List.all_eq_true.1 hm, hword⟩
  have hl : ∀ i ∈ items, i.1.IsSpelled := by
    simp only [items, List.forall_mem_cons, Lexeme.IsSpelled]
    exact ⟨by decide, hname "x1" 'x' ['1'] rfl rfl rfl rfl, by decide, by decide, by decide,
      by decide, hname "and1" 'a' ['n', 'd', '1'] rfl rfl rfl rfl, by decide, by decide, by decide,
      by decide, nofun⟩
  have hgap : ∀ i ∈ items, ∀ c ∈ i.2.toList, isBlank c = true := by
    have hall : ∀ i ∈ items, i.2.toList.all isBlank = true := List.all_eq_true.1 (by decide)
    exact fun i hi => List.all_eq_true.1 (hall i hi)
  have happart : items.IsChain fun i j => i.1.Merges j.1 → i.2 ≠ "" := by decide
  exact ⟨hl, hgap, (tokens_ofSource_spaced_iff ⟨0⟩ items hl hgap).2 happart⟩

end WhileLang
