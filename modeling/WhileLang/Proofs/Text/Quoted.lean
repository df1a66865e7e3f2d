import WhileLang.Text.Quoted

/-!
# `WhileLang/Proofs/Text/Quoted.lean` — what is in quotes can be seen, and says what was quoted

Whatever is quoted, **every character between the quotes is seen on its own**
(`isGraphic_of_mem_quote`); so no line breaks in quotes. Characters that are seen on their own
anyway, and need no backslash, stand there as they are (`quote_eq_of_isGraphic`), those of ASCII in
particular.

An escape says where it ends: a letter is one character, and a code ends at its brace. So **the end
of the quotes can be told, and what was quoted** (`quote_append_inj`).
-/

set_option autoImplicit false

namespace WhileLang

namespace Quoted

/-! ## Codes -/

theorem exists_digitChar_of_mem_toDigits {n : Nat} {c : Char} (h : c ∈ Nat.toDigits 16 n) :
    ∃ d < 16, c = Nat.digitChar d := by
  induction n using Nat.strongRecOn with
  | ind n ih =>
    rw [Nat.toDigits_eq_if (by decide)] at h
    by_cases hn : n < 16
    · rw [if_pos hn, List.mem_singleton] at h
      exact ⟨n, hn, h⟩
    · rw [if_neg hn, List.mem_append, List.mem_singleton] at h
      rcases h with h | h
      · exact ih (n / 16) (Nat.div_lt_self (by omega) (by decide)) h
      · exact ⟨n % 16, Nat.mod_lt n (by decide), h⟩

theorem digitChar_inj {d e : Nat} (hd : d < 16) (he : e < 16)
    (h : Nat.digitChar d = Nat.digitChar e) : d = e := by
  have hall : ∀ d < 16, ∀ e < 16, Nat.digitChar d = Nat.digitChar e → d = e := by decide
  exact hall d hd e he h

/-- A number is told from its digits. -/
theorem toDigits_inj {m n : Nat} (h : Nat.toDigits 16 m = Nat.toDigits 16 n) : m = n := by
  have hone {k l : Nat} (hk : k < 16) (hl : 16 ≤ l) : Nat.toDigits 16 k ≠ Nat.toDigits 16 l := by
    intro h
    rw [Nat.toDigits_of_lt_base hk, Nat.toDigits_of_base_le (by decide) hl] at h
    have hnil : Nat.toDigits 16 (l / 16) = [] := by simpa using congrArg List.length h
    exact Nat.toDigits_ne_nil hnil
  induction m using Nat.strongRecOn generalizing n with
  | ind m ih =>
    rcases Nat.lt_or_ge m 16 with hm | hm <;> rcases Nat.lt_or_ge n 16 with hn | hn
    · rw [Nat.toDigits_of_lt_base hm, Nat.toDigits_of_lt_base hn] at h
      exact digitChar_inj hm hn (List.cons.inj h).1
    · exact absurd h (hone hm hn)
    · exact absurd h.symm (hone hn hm)
    · rw [Nat.toDigits_of_base_le (by decide) hm, Nat.toDigits_of_base_le (by decide) hn] at h
      obtain ⟨hdiv, hmod⟩ := List.append_inj' h rfl
      have hquot := ih (m / 16) (Nat.div_lt_self (by omega) (by decide)) hdiv
      have hrem := digitChar_inj (Nat.mod_lt m (by decide)) (Nat.mod_lt n (by decide))
        (List.cons.inj hmod).1
      omega

/-! ## One character -/

/-- A character that stands for itself is seen, and is neither a quote nor a backslash. -/
theorem escape_cases (c : Char) :
    (∃ l, letter? c = some l ∧ escape c = ['\\', l]) ∨
      (isGraphic c = true ∧ c ≠ '\\' ∧ c ≠ '"' ∧ escape c = [c]) ∨
      escape c = '\\' :: 'u' :: '{' :: (Nat.toDigits 16 c.toNat ++ ['}']) := by
  unfold escape
  cases hl : letter? c with
  | some l => exact .inl ⟨l, rfl, rfl⟩
  | none =>
    refine .inr ?_
    by_cases hc : isGraphic c = true
    · rw [if_pos hc]
      refine .inl ⟨hc, ?_, ?_, rfl⟩
      · rintro rfl
        cases hl
      · rintro rfl
        cases hl
    · rw [if_neg hc]
      exact .inr rfl

theorem letter?_mem {c l : Char} (h : letter? c = some l) :
    l ∈ ['"', '\\', 'n', 'r', 't', '0'] := by
  unfold letter? at h
  grind

theorem letter?_inj {c d l : Char} (hc : letter? c = some l) (hd : letter? d = some l) : c = d := by
  unfold letter? at hc hd
  grind

theorem escape_eq_of_isGraphic {c : Char} (h : isGraphic c = true) (hquote : c ≠ '"')
    (hback : c ≠ '\\') : escape c = [c] := by
  have hnone : letter? c = none := by
    unfold letter?
    rw [if_neg (by simp [hquote, hback]), if_neg, if_neg, if_neg, if_neg]
    all_goals
      rintro rfl
      revert h
      decide
  rw [escape, hnone]
  exact if_pos h

theorem isGraphic_of_mem_escape {c d : Char} (h : d ∈ escape c) : isGraphic d = true := by
  have hback : isGraphic '\\' = true := isGraphic_of_ascii (by decide) (by decide)
  rcases escape_cases c with ⟨l, hl, he⟩ | ⟨hc, -, -, he⟩ | he
  · have hletter : ∀ l ∈ ['"', '\\', 'n', 'r', 't', '0'], 32 ≤ l.toNat ∧ l.toNat < 127 := by
      simp
    obtain ⟨hlo, hhi⟩ := hletter l (letter?_mem hl)
    have hseen := isGraphic_of_ascii hlo hhi
    rw [he, List.mem_cons, List.mem_singleton] at h
    rcases h with rfl | rfl
    · exact hback
    · exact hseen
  · rw [he, List.mem_singleton] at h
    rw [h]
    exact hc
  · rw [he] at h
    simp only [List.mem_cons, List.mem_append, List.not_mem_nil, or_false] at h
    rcases h with rfl | rfl | rfl | hd | rfl
    · exact hback
    · exact isGraphic_of_ascii (by decide) (by decide)
    · exact isGraphic_of_ascii (by decide) (by decide)
    · have hdigit : ∀ d < 16, 32 ≤ (Nat.digitChar d).toNat ∧ (Nat.digitChar d).toNat < 127 := by
        decide
      obtain ⟨k, hk, rfl⟩ := exists_digitChar_of_mem_toDigits hd
      exact isGraphic_of_ascii (hdigit k hk).1 (hdigit k hk).2
    · exact isGraphic_of_ascii (by decide) (by decide)

/-- A code ends at its brace. -/
theorem toDigits_append_inj {m n : Nat} {x y : List Char}
    (h : Nat.toDigits 16 m ++ '}' :: x = Nat.toDigits 16 n ++ '}' :: y) : m = n ∧ x = y := by
  have hrun (n : Nat) (z : List Char) :
      (Nat.toDigits 16 n ++ '}' :: z).takeWhile (· ≠ '}') = Nat.toDigits 16 n := by
    have hdigit : ∀ d < 16, Nat.digitChar d ≠ '}' := by decide
    rw [List.takeWhile_append_of_pos]
    · simp
    · intro c hc
      obtain ⟨d, hd, rfl⟩ := exists_digitChar_of_mem_toDigits hc
      exact decide_eq_true (hdigit d hd)
  have hdigits : Nat.toDigits 16 m = Nat.toDigits 16 n := by
    rw [← hrun m x, h, hrun n y]
  rw [hdigits] at h
  exact ⟨toDigits_inj hdigits, (List.cons.inj (List.append_cancel_left h)).2⟩

/-- **An escape says where it ends**, and for which character it stands. -/
theorem escape_append_inj {c d : Char} {x y : List Char} (h : escape c ++ x = escape d ++ y) :
    c = d ∧ x = y := by
  have hcode {c l : Char} (hl : letter? c = some l) : l ≠ 'u' := by
    rintro rfl
    exact absurd (letter?_mem hl) (by decide)
  rcases escape_cases c with ⟨l, hl, hc⟩ | ⟨-, hcback, -, hc⟩ | hc <;>
    rcases escape_cases d with ⟨k, hk, hd⟩ | ⟨-, hdback, -, hd⟩ | hd <;>
    rw [hc, hd] at h <;> simp only [List.cons_append, List.nil_append, List.cons.injEq] at h
  · obtain ⟨-, rfl, rfl⟩ := h
    exact ⟨letter?_inj hl hk, rfl⟩
  · exact absurd h.1.symm hdback
  · exact absurd h.2.1 (hcode hl)
  · exact absurd h.1 hcback
  · exact h
  · exact absurd h.1 hcback
  · exact absurd h.2.1.symm (hcode hk)
  · exact absurd h.1.symm hdback
  · obtain ⟨-, -, -, h⟩ := h
    rw [List.append_assoc, List.append_assoc] at h
    obtain ⟨hcd, hxy⟩ := toDigits_append_inj h
    exact ⟨Char.toNat_inj.1 hcd, hxy⟩

/-- No escape begins with a quote. -/
theorem escape_append_ne (c : Char) (x y : List Char) : escape c ++ x ≠ '"' :: y := by
  rcases escape_cases c with ⟨l, -, hc⟩ | ⟨-, -, hquote, hc⟩ | hc <;> rw [hc]
  · simp
  · simp [hquote]
  · simp

/-! ## Whole texts -/

theorem flatMap_escape_append_inj {cs ds x y : List Char}
    (h : cs.flatMap escape ++ '"' :: x = ds.flatMap escape ++ '"' :: y) : cs = ds ∧ x = y := by
  induction cs generalizing ds with
  | nil =>
    cases ds with
    | nil => exact ⟨rfl, (List.cons.inj h).2⟩
    | cons d ds =>
      rw [List.flatMap_cons, List.append_assoc] at h
      exact absurd h.symm (escape_append_ne d _ x)
  | cons c cs ih =>
    rw [List.flatMap_cons, List.append_assoc] at h
    cases ds with
    | nil => exact absurd h (escape_append_ne c _ y)
    | cons d ds =>
      rw [List.flatMap_cons, List.append_assoc] at h
      obtain ⟨rfl, hrest⟩ := escape_append_inj h
      obtain ⟨rfl, hxy⟩ := ih hrest
      exact ⟨rfl, hxy⟩

theorem toList_quote (text : String) :
    (quote text).toList = '"' :: (text.toList.flatMap escape ++ ['"']) :=
  String.toList_ofList

end Quoted

open Quoted

/-- **Whatever is quoted, every character of it can be seen.** -/
theorem isGraphic_of_mem_quote {text : String} {c : Char} (h : c ∈ (quote text).toList) :
    isGraphic c = true := by
  have hquote : isGraphic '"' = true := isGraphic_of_ascii (by decide) (by decide)
  rw [toList_quote, List.mem_cons, List.mem_append, List.mem_singleton, List.mem_flatMap] at h
  rcases h with rfl | ⟨d, -, hd⟩ | rfl
  · exact hquote
  · exact isGraphic_of_mem_escape hd
  · exact hquote

/-- What can be seen, and needs no backslash, stands between the quotes as it is. -/
theorem quote_eq_of_isGraphic {text : String}
    (h : ∀ c ∈ text.toList, isGraphic c = true ∧ c ≠ '"' ∧ c ≠ '\\') :
    quote text = "\"" ++ text ++ "\"" := by
  have hself : ∀ c ∈ text.toList, escape c = [c] := by
    intro c hc
    obtain ⟨hseen, hquote, hback⟩ := h c hc
    exact escape_eq_of_isGraphic hseen hquote hback
  have hflat : text.toList.flatMap escape = text.toList := by
    rw [List.flatMap_def, List.map_congr_left hself, ← List.flatMap_def, List.flatMap_singleton']
  rw [← String.toList_inj, toList_quote, hflat]
  simp

/-- **The end of a quoted text can be told, and so can the text**, whatever follows. -/
theorem quote_append_inj {s t x y : String} (h : quote s ++ x = quote t ++ y) : s = t ∧ x = y := by
  have hlist := congrArg String.toList h
  rw [String.toList_append, String.toList_append, toList_quote, toList_quote, List.cons_append,
    List.cons_append, List.append_assoc, List.append_assoc] at hlist
  obtain ⟨hst, hxy⟩ := flatMap_escape_append_inj (List.cons.inj hlist).2
  exact ⟨String.toList_inj.1 hst, String.toList_inj.1 hxy⟩

end WhileLang
