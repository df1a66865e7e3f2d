import WhileLang.Proofs.Token.Boundary
import WhileLang.Proofs.Token.Lexemes
import WhileLang.Tree.Printer

/-!
# `WhileLang/Proofs/Token/Reading.lean` — which texts read as which lexemes

`Reads text ls` says that a text falls into these lexemes and blanks, with **no stray character**.
The rules below build such texts from the front, one blank or token at a time. A token is what its
first character reaches, so a rule for a token asks of the text after it only what would make the
token longer: a word or number must not be followed by a letter or digit (`Stops`), and a sign must
not be followed by `=`. Only ASCII is read, so such a text is also what its bytes spell
(`Reads.chars_ofString`).
-/

set_option autoImplicit false

namespace WhileLang

/-- A text falls into these lexemes and blanks, and nothing else. -/
def Reads (text : List Char) (ls : List Lexeme) : Prop :=
  lexemes text = ls ∧ ∀ c, .stray c ∉ pieces text

/-- The text does not begin with a letter or a digit. -/
abbrev Stops : List Char → Prop := Boundary Char.isAlphanum

theorem toNat_of_isAlpha {c : Char} (h : c.isAlpha = true) :
    65 ≤ c.toNat ∧ c.toNat ≤ 90 ∨ 97 ≤ c.toNat ∧ c.toNat ≤ 122 := by
  have h : (decide (c.val ≥ 65 ∧ c.val ≤ 90) || c.val ≥ 97 && c.val ≤ 122) = true := h
  simpa [UInt32.le_iff_toNat_le] using h

theorem isAlpha_eq_false_of_isDigit {c : Char} (h : c.isDigit = true) : c.isAlpha = false := by
  rw [Bool.eq_false_iff]
  intro ha
  have hdigit : 48 ≤ c.toNat ∧ c.toNat ≤ 57 := Char.isDigit_iff_toNat.1 h
  have halpha := toNat_of_isAlpha ha
  omega

theorem isBlank_eq_false_of_isAlphanum {c : Char} (h : c.isAlphanum = true) :
    isBlank c = false := by
  rw [Bool.eq_false_iff]
  intro hb
  simp only [isBlank, List.contains_eq_mem, List.mem_cons, List.not_mem_nil, or_false,
    decide_eq_true_eq] at hb
  rcases hb with rfl | rfl | rfl | rfl | rfl | rfl <;> exact absurd h (by decide)

namespace Reads

variable {rest : List Char} {ls : List Lexeme}

theorem nil : Reads [] [] := ⟨rfl, by simp⟩

theorem blank {c : Char} (hc : isBlank c = true) (h : Reads rest ls) : Reads (c :: rest) ls := by
  have hp : pieces (c :: rest) = .blank c :: pieces rest := by
    rw [pieces_cons, reach_of_isBlank hc, Piece.ofText, if_pos hc]
    rfl
  refine ⟨?_, fun d hd => ?_⟩
  · rw [lexemes, hp]
    exact h.1
  · rw [hp, List.mem_cons] at hd
    rcases hd with hd | hd
    · exact absurd hd (by simp)
    · exact h.2 d hd

theorem space (h : Reads rest ls) : Reads (' ' :: rest) ls := h.blank (by decide)

theorem newline (h : Reads rest ls) : Reads ('\n' :: rest) ls := h.blank (by decide)

theorem blanks {cs : List Char} (hc : ∀ c ∈ cs, isBlank c = true) (h : Reads rest ls) :
    Reads (cs ++ rest) ls := by
  induction cs with
  | nil => exact h
  | cons c cs ih =>
    exact (ih fun d hd => hc d (List.mem_cons_of_mem _ hd)).blank (hc c (List.mem_cons_self ..))

/-- The first token is what its first character reaches. -/
theorem token {c : Char} {more : List Char} {l : Lexeme} (hr : reach c (more ++ rest) = more)
    (hp : Piece.ofText c more = .token (c :: more) l) (h : Reads rest ls) :
    Reads (c :: more ++ rest) (l :: ls) := by
  have hps : pieces (c :: more ++ rest) = .token (c :: more) l :: pieces rest := by
    rw [List.cons_append, pieces_cons, hr, hp, List.drop_left]
  refine ⟨?_, fun d hd => ?_⟩
  · rw [lexemes, hps, List.filterMap_cons, ← h.1]
    rfl
  · rw [hps, List.mem_cons] at hd
    rcases hd with hd | hd
    · exact absurd hd (by simp)
    · exact h.2 d hd

theorem word {c : Char} {more : List Char} (hc : c.isAlpha = true)
    (hm : ∀ d ∈ more, d.isAlphanum = true) (hs : Stops rest) (h : Reads rest ls) :
    Reads (c :: more ++ rest) (.ofWord (String.ofList (c :: more)) :: ls) := by
  have hb : isBlank c = false := isBlank_eq_false_of_isAlphanum (by simp [Char.isAlphanum, hc])
  apply h.token
  · rw [reach, if_pos hc]
    exact takeWhile_append_of_boundary (fun _ => id) hm hs
  · simp [Piece.ofText, hb, hc]

theorem name {x : String} (hx : IsName x) (hs : Stops rest) (h : Reads rest ls) :
    Reads (x.toList ++ rest) (.name x :: ls) := by
  obtain ⟨c, more, hcs, hc, hm, hword⟩ := hx
  have hr := h.word hc hm hs
  rwa [← hcs, String.ofList_toList, Lexeme.ofWord, hword] at hr

theorem keyword {m : Mark} (hm : m ∈ Mark.keywords) (hs : Stops rest) (h : Reads rest ls) :
    Reads (m.text.toList ++ rest) (.mark m :: ls) := by
  obtain ⟨c, more, hcs, hc, hmore, hword⟩ : ∃ c more, m.text.toList = c :: more ∧
      c.isAlpha = true ∧ (∀ d ∈ more, d.isAlphanum = true) ∧ Mark.keyword? m.text = some m := by
    cases m <;>
      first
        | exact absurd hm (by decide)
        | exact ⟨_, _, rfl, by decide, List.all_eq_true.1 (by decide), by decide⟩
  have hr := h.word hc hmore hs
  rwa [← hcs, String.ofList_toList, Lexeme.ofWord, hword] at hr

theorem number {c : Char} {more : List Char} (hd : ∀ d ∈ c :: more, d.isDigit = true)
    (hs : Stops rest) (h : Reads rest ls) :
    Reads (c :: more ++ rest) (.literal (literalValue (c :: more)) :: ls) := by
  have hc := hd c (List.mem_cons_self ..)
  have ha := isAlpha_eq_false_of_isDigit hc
  have hb : isBlank c = false := isBlank_eq_false_of_isAlphanum (by simp [Char.isAlphanum, hc])
  apply h.token
  · rw [reach, ha, if_neg (by simp), if_pos hc]
    exact takeWhile_append_of_boundary (fun c hc => by simp [Char.isAlphanum, hc])
      (fun d hm => hd d (List.mem_cons_of_mem _ hm)) hs
  · simp [Piece.ofText, hb, ha, hc]

/-- A sign reads as itself unless it is made longer. -/
theorem operator {m : Mark} (hm : m ∈ Mark.operators)
    (hs : m ∈ [.assign, .lt, .gt] → rest.head? ≠ some '=') (h : Reads rest ls) :
    Reads (m.text.toList ++ rest) (.mark m :: ls) := by
  -- a finite check over the table; what is left is how far the sign reaches
  obtain ⟨c, more, hcs, ha, hd, hmore, hp⟩ : ∃ c more, m.text.toList = c :: more ∧
      c.isAlpha = false ∧ c.isDigit = false ∧
      (widens c = true ∧ more = ['='] ∨ more = [] ∧ (widens c = true → m ∈ [.assign, .lt, .gt])) ∧
      Piece.ofText c more = .token (c :: more) (.mark m) := by
    cases m <;> first
      | exact absurd hm (by decide)
      | exact ⟨_, _, rfl, by decide, by decide, by decide, by decide⟩
  rw [hcs]
  refine h.token ?_ hp
  rcases hmore with ⟨hw, rfl⟩ | ⟨rfl, hw⟩
  · simp [reach, ha, hd, hw]
  · rw [List.nil_append, reach, ha, hd, if_neg (by simp), if_neg (by simp)]
    split
    · rename_i hwide
      have hne := hs (hw hwide)
      cases rest with
      | nil => rfl
      | cons d rest =>
        have hd : d ≠ '=' := by simpa using hne
        simp [hd]
    · rfl

/-- Before a space every mark reads as itself. -/
theorem markSpace {m : Mark} (hm : m ∈ Mark.keywords ∨ m ∈ Mark.operators)
    (h : Reads rest ls) : Reads (m.text.toList ++ ' ' :: rest) (.mark m :: ls) := by
  rcases hm with hm | hm
  · exact h.space.keyword hm (.cons (by decide) _)
  · exact h.space.operator hm fun _ => by simp

end Reads

/-! ## Bytes -/

theorem toNat_lt_of_isAlphanum {c : Char} (h : c.isAlphanum = true) : c.toNat < 128 := by
  rcases Bool.or_eq_true_iff.1 h with h | h
  · have halpha := toNat_of_isAlpha h
    omega
  · have hdigit : 48 ≤ c.toNat ∧ c.toNat ≤ 57 := Char.isDigit_iff_toNat.1 h
    omega

theorem toNat_lt_of_isBlank {c : Char} (h : isBlank c = true) : c.toNat < 128 := by
  simp only [isBlank, List.contains_eq_mem, List.mem_cons, List.not_mem_nil, or_false,
    decide_eq_true_eq] at h
  rcases h with rfl | rfl | rfl | rfl | rfl | rfl <;> decide

theorem Mark.toNat_lt_of_mem_text (m : Mark) : ∀ c ∈ m.text.toList, c.toNat < 128 := by
  have hascii : m.text.toList.all (fun c => decide (c.toNat < 128)) := by
    cases m <;> decide
  intro c hc
  exact of_decide_eq_true (List.all_eq_true.1 hascii c hc)

/-- Every piece but a stray character is written in ASCII. -/
theorem Piece.toNat_lt_of_mem_text {c : Char} {rest : List Char}
    (hs : ∀ d, Piece.ofText c (reach c rest) ≠ .stray d) :
    ∀ d ∈ (Piece.ofText c (reach c rest)).text, d.toNat < 128 := by
  rw [Piece.text_ofText_reach]
  unfold Piece.ofText at hs
  split at hs
  · rename_i hb
    simpa [reach_of_isBlank hb] using toNat_lt_of_isBlank hb
  split at hs
  · rename_i ha
    rw [reach, if_pos ha]
    refine List.forall_mem_cons.2 ⟨toNat_lt_of_isAlphanum (by simp [Char.isAlphanum, ha]), ?_⟩
    exact fun d hd => toNat_lt_of_isAlphanum (List.mem_takeWhile_imp hd)
  split at hs
  · rename_i ha hd
    rw [reach, if_neg ha, if_pos hd]
    refine List.forall_mem_cons.2 ⟨toNat_lt_of_isAlphanum (by simp [Char.isAlphanum, hd]), ?_⟩
    intro d hdm
    exact toNat_lt_of_isAlphanum (by simp [Char.isAlphanum, List.mem_takeWhile_imp hdm])
  · split at hs
    · rename_i m hm
      have htext : m.text = String.ofList (c :: reach c rest) := by
        simpa using List.find?_some hm
      intro d hd
      exact m.toNat_lt_of_mem_text d (by rwa [htext, String.toList_ofList])
    · exact absurd rfl (hs c)

namespace Reads

variable {text : List Char} {ls : List Lexeme}

theorem toNat_lt (h : Reads text ls) : ∀ c ∈ text, c.toNat < 128 := by
  intro c hc
  rw [← text_pieces text, List.mem_flatMap] at hc
  obtain ⟨p, hp, hc⟩ := hc
  obtain ⟨d, rest, rfl⟩ := exists_of_mem_pieces hp
  refine Piece.toNat_lt_of_mem_text (fun e he => ?_) c hc
  exact h.2 e (he ▸ hp)

end Reads

theorem utf8Encode_of_ascii {text : List Char} (h : ∀ c ∈ text, c.toNat < 128) :
    text.utf8Encode.data.toList = text.map (·.toUInt8) := by
  induction text with
  | nil => rfl
  | cons c text ih =>
    obtain ⟨hc, htext⟩ := List.forall_mem_cons.1 h
    have hsize : c.utf8Size = 1 := by
      rw [Char.utf8Size_eq_one_iff, UInt32.le_iff_toNat_le]
      exact Nat.le_of_lt_succ hc
    rw [List.utf8Encode_cons, List.utf8Encode_singleton, String.utf8EncodeChar_eq_singleton hsize]
    simp [ih htext]

theorem ofUInt8_toUInt8 {c : Char} (h : c.toNat < 128) : Char.ofUInt8 c.toUInt8 = c := by
  apply Char.ext
  apply UInt32.toNat_inj.1
  have hc : c.toNat = c.val.toNat := rfl
  show c.val.toUInt8.toUInt32.toNat = c.val.toNat
  rw [UInt8.toNat_toUInt32, UInt32.toNat_toUInt8]
  exact Nat.mod_eq_of_lt (by omega)

/-- A text in ASCII is the characters of its bytes. -/
theorem chars_ofString_of_ascii {text : String} (h : ∀ c ∈ text.toList, c.toNat < 128) :
    (Source.ofString text).chars = text.toList := by
  have hbytes : Source.ofString text = text.toList.map (·.toUInt8) := by
    rw [← utf8Encode_of_ascii h]
    simp [Source.ofString]
  rw [hbytes, Source.chars, List.map_map]
  calc text.toList.map (Char.ofUInt8 ∘ (·.toUInt8))
      = text.toList.map id := List.map_congr_left fun c hc => ofUInt8_toUInt8 (h c hc)
    _ = text.toList := List.map_id _

theorem Reads.chars_ofString {text : String} {ls : List Lexeme} (h : Reads text.toList ls) :
    (Source.ofString text).chars = text.toList :=
  chars_ofString_of_ascii h.toNat_lt

end WhileLang
