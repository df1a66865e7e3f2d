import WhileLang.Proofs.Token.Lexemes
import WhileLang.Target.Code

/-!
# `WhileLang/Proofs/Target/Names.lean` — the names of variables in other languages

The name of a variable ends in the number of its declaration, after an underscore. Digits have no
underscore in them, so **the number can be told from the name** (`Target.varName_inj`), whatever the
rest of it is; two declarations with different numbers never have one name.
-/

set_option autoImplicit false

namespace WhileLang

theorem DeclId.toList_text (d : DeclId) : d.text.toList = Nat.toDigits 10 d.index.toNat := by
  simp [text, Nat.toString_eq_repr, Nat.toList_repr]

theorem DeclId.isDigit_of_mem_text {d : DeclId} {c : Char} (h : c ∈ d.text.toList) :
    c.isDigit = true := by
  rw [toList_text] at h
  exact Nat.isDigit_of_mem_toDigits (by decide) (by decide) h

theorem DeclId.text_inj {d d' : DeclId} : d.text = d'.text ↔ d = d' := by
  constructor
  · intro h
    have hdigits := congrArg String.toList h
    rw [toList_text, toList_text] at hdigits
    have hnat := congrArg (Nat.ofDigitChars 10 · 0) hdigits
    simp only [Nat.ofDigitChars_ten_toDigits] at hnat
    cases d
    cases d'
    exact congrArg DeclId.mk (UInt32.toNat_inj.1 hnat)
  · rintro rfl
    rfl

namespace Target

theorem toList_varName (x : String) (d : DeclId) :
    (varName x d).toList = '_' :: (x.toList ++ '_' :: d.text.toList) := by
  simp [varName]

/-- The digits at the end of a list that has something else before them. -/
theorem reverse_takeWhile_isDigit {front digits : List Char} (h : ∀ c ∈ digits, c.isDigit = true) :
    (front ++ '_' :: digits).reverse.takeWhile Char.isDigit = digits.reverse := by
  rw [List.reverse_append, List.reverse_cons, List.append_assoc,
    List.takeWhile_append_of_pos fun c hc => h c (List.mem_reverse.1 hc)]
  simp [List.takeWhile_cons_of_neg]

/-- **A declaration can be told from the name of its variable.** -/
theorem varName_inj {x x' : String} {d d' : DeclId} (h : varName x d = varName x' d') : d = d' := by
  have hlist := congrArg String.toList h
  rw [toList_varName, toList_varName] at hlist
  have hdigits := congrArg (fun cs : List Char => cs.reverse.takeWhile Char.isDigit) hlist
  simp only [← List.cons_append] at hdigits
  rw [reverse_takeWhile_isDigit fun c => DeclId.isDigit_of_mem_text,
    reverse_takeWhile_isDigit fun c => DeclId.isDigit_of_mem_text, List.reverse_inj] at hdigits
  exact DeclId.text_inj.1 (String.toList_inj.1 hdigits)

/-- The name of a variable is not empty and ends in a digit. -/
theorem getLast?_varName (x : String) (d : DeclId) :
    ∃ c, (varName x d).toList.getLast? = some c ∧ c.isDigit = true := by
  have hne : d.text.toList ≠ [] := by
    rw [DeclId.toList_text]
    exact Nat.toDigits_ne_nil
  refine ⟨d.text.toList.getLast hne, ?_, DeclId.isDigit_of_mem_text (List.getLast_mem hne)⟩
  rw [toList_varName, List.getLast?_cons, List.getLast?_append, List.getLast?_cons,
    List.getLast?_eq_some_getLast hne]
  simp

/-- The name of a variable is not in a table of words that end in letters. -/
theorem lookup_varName {β : Type} {table : List (String × β)}
    (h : ∀ p ∈ table, p.1.toList.getLast?.all (fun c => !c.isDigit) = true) (x : String)
    (d : DeclId) : table.lookup (varName x d) = none := by
  obtain ⟨c, hc, hdigit⟩ := getLast?_varName x d
  rw [List.lookup_eq_none_iff]
  intro p hp
  have hlast := h p hp
  have hne : varName x d ≠ p.1 := by
    intro he
    rw [← he, hc] at hlast
    simp [hdigit] at hlast
  simpa using hne

/-- The name of a variable is made of letters, digits and underscores. -/
theorem of_mem_varName {x : String} (hx : IsName x) {d : DeclId} {a : Char}
    (h : a ∈ '_' :: (x.toList ++ '_' :: d.text.toList)) : a.isAlphanum = true ∨ a = '_' := by
  obtain ⟨c, more, hcs, hc, hm, -⟩ := hx
  simp only [hcs, List.mem_cons, List.mem_append] at h
  rcases h with rfl | (rfl | h) | rfl | h
  · exact .inr rfl
  · exact .inl (by simp [Char.isAlphanum, hc])
  · exact .inl (hm a h)
  · exact .inr rfl
  · exact .inl (by simp [Char.isAlphanum, DeclId.isDigit_of_mem_text h])

end Target

end WhileLang
