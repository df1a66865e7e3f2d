import WhileLang.Typing.Check

/-!
# `WhileLang/Proofs/Typing/Faults.lean` — what the checker can find

The checker complains in three places: about an expression of the wrong type, about a name that
means nothing, and about a name that is declared again. **Each of them gives one finding at most,
and it is known which** (`TypeFault.eq_of_mem_check`, `ScopeTable.eq_of_mem_useFaults`,
`ScopeTable.exists_of_mem_declareFaults`), so that what is said of a finding is read off its fault.

All findings are errors, wherever in a program they are (`Program.severity_of_mem_faults`).
-/

set_option autoImplicit false

namespace WhileLang

/-! ## Types -/

namespace TypeFault

variable {f : TypeFault} {span : Span} {d : Diagnostic}

theorem eq_of_mem_check (h : d ∈ f.check span) : d = f.diagnostic span := by
  unfold check at h
  split at h
  · exact absurd h List.not_mem_nil
  · exact List.mem_singleton.1 h

theorem kind_of_mem_check (h : d ∈ f.check span) : d.kind = .typeMismatch := by
  rw [eq_of_mem_check h]
  cases f <;> rfl

theorem severity_of_mem_check (h : d ∈ f.check span) : d.severity = .error := by
  rw [eq_of_mem_check h]
  cases f <;> rfl

theorem span_of_mem_check (h : d ∈ f.check span) : d.span = span := by
  rw [eq_of_mem_check h]
  cases f <;> rfl

end TypeFault

/-! ## Names -/

namespace ScopeTable

variable {t : ScopeTable} {s : Symbol} {d found : Diagnostic}

theorem eq_of_mem_useFaults (h : d ∈ t.useFaults s) :
    d = (ScopeFault.undeclared s).diagnostic := by
  unfold useFaults find at h
  by_cases hs : s.isError
  · simp [hs] at h
  · cases hl : t.lookup s.name <;> simp [hs, hl] at h
    exact h

theorem kind_of_mem_useFaults (h : d ∈ t.useFaults s) : d.kind = .undeclared := by
  rw [eq_of_mem_useFaults h]
  rfl

theorem severity_of_mem_useFaults (h : d ∈ t.useFaults s) : d.severity = .error := by
  rw [eq_of_mem_useFaults h]
  rfl

/-- The declaration that is pointed at is in the innermost frame. -/
theorem exists_of_mem_declareFaults {d : Declaration} (h : found ∈ t.declareFaults d) :
    ∃ prior, t.inner.lookup d.symbol.name = some prior ∧
      found = (ScopeFault.redeclared d.symbol prior.span).diagnostic := by
  unfold declareFaults bind at h
  by_cases hs : d.symbol.isError
  · simp [hs] at h
  · cases hl : t.inner.lookup d.symbol.name with
    | none => simp [hs, hl] at h
    | some prior =>
      rw [if_neg hs, hl, List.mem_singleton] at h
      exact ⟨prior, rfl, h⟩

theorem kind_of_mem_declareFaults {d : Declaration} (h : found ∈ t.declareFaults d) :
    found.kind = .redeclaration := by
  obtain ⟨prior, -, rfl⟩ := exists_of_mem_declareFaults h
  rfl

theorem severity_of_mem_declareFaults {d : Declaration} (h : found ∈ t.declareFaults d) :
    found.severity = .error := by
  obtain ⟨prior, -, rfl⟩ := exists_of_mem_declareFaults h
  rfl

end ScopeTable

/-! ## Every finding of the checker is an error -/

theorem Expr.severity_of_mem_faults {scope : ScopeTable} {e : Expr} {d : Diagnostic}
    (h : d ∈ e.faults scope) : d.severity = .error := by
  induction e with
  | binary n op l r ihl ihr =>
    simp only [faults, List.mem_append] at h
    rcases h with ((h | h) | h) | h
    · exact ihl h
    · exact ihr h
    · exact TypeFault.severity_of_mem_check h
    · exact TypeFault.severity_of_mem_check h
  | unary n op e ih =>
    rcases List.mem_append.1 h with h | h
    · exact ih h
    · exact TypeFault.severity_of_mem_check h
  | var n s => exact ScopeTable.severity_of_mem_useFaults h
  | bool n b | int n v | hole n => simp [faults] at h

theorem Declaration.severity_of_mem_faults {scope : ScopeTable} {d : Declaration}
    {found : Diagnostic} (h : found ∈ d.faults scope) : found.severity = .error := by
  simp only [faults, List.mem_append] at h
  rcases h with (h | h) | h
  · exact Expr.severity_of_mem_faults h
  · exact TypeFault.severity_of_mem_check h
  · exact ScopeTable.severity_of_mem_declareFaults h

theorem Assignment.severity_of_mem_faults {scope : ScopeTable} {a : Assignment}
    {found : Diagnostic} (h : found ∈ a.faults scope) : found.severity = .error := by
  simp only [faults, List.mem_append] at h
  rcases h with (h | h) | h
  · exact Expr.severity_of_mem_faults h
  · exact ScopeTable.severity_of_mem_useFaults h
  · split at h
    · exact TypeFault.severity_of_mem_check h
    · simp at h

theorem Block.severity_of_mem_faults {scope : ScopeTable} {b : Block} {found : Diagnostic}
    (h : found ∈ b.faults scope) : found.severity = .error := by
  induction b generalizing scope with
  | done => simp [faults] at h
  | declare d rest ih =>
    rcases List.mem_append.1 h with h | h
    · exact Declaration.severity_of_mem_faults h
    · exact ih h
  | assign a rest ih =>
    rcases List.mem_append.1 h with h | h
    · exact Assignment.severity_of_mem_faults h
    · exact ih h
  | loop w body rest ihb ihr =>
    simp only [faults, List.mem_append] at h
    rcases h with ((h | h) | h) | h
    · exact Expr.severity_of_mem_faults h
    · exact TypeFault.severity_of_mem_check h
    · exact ihb h
    · exact ihr h

theorem Program.severity_of_mem_faults {p : Program} {found : Diagnostic} (h : found ∈ p.faults) :
    found.severity = .error := by
  rcases List.mem_append.1 h with h | h
  · exact Block.severity_of_mem_faults h
  · exact Expr.severity_of_mem_faults h

end WhileLang
