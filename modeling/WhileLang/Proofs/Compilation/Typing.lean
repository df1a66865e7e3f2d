import WhileLang.Proofs.Compilation.Valid
import WhileLang.Proofs.Typing.Sites

/-!
# `WhileLang/Proofs/Compilation/Typing.lean` — the checker decides the typing rules

The checker is a walk that never stops: after an error it goes on with a type that fits everywhere.
So it could pass what the rules forbid, or complain about what they allow because of something it
complained about before. It does neither. **A source that was parsed without a finding is checked
without one if and only if the rules give its program a type** (`check_log_eq_nil_iff`), and then
the tables have for every expression the one type that the rules give it.
-/

set_option autoImplicit false

namespace WhileLang

namespace Compilation

/-- After a clean parse all findings are the checker's. -/
theorem log_check_of_log_eq_nil {name : String} {source : Source}
    (h : (ofSource name source).log.toList = []) :
    (ofSource name source).check.log.toList = (ofSource name source).program.faults := by
  rw [log_check_ofSource, Log.toList_append, h, List.nil_append]

/-- A tree that was parsed without a finding is whole. -/
theorem whole_of_log_eq_nil {name : String} {source : Source}
    (h : (ofSource name source).log.toList = []) : (ofSource name source).program.Whole := by
  have hparse : (ofSource name source).log.countOf .parse = 0 := by
    rw [Log.countOf, h]
    rfl
  exact Program.whole_ofSource hparse

/-- **The checker finds nothing exactly when the program is well typed.** Then every expression has
one type where it stands, which is the type the tables have for it. -/
theorem check_log_eq_nil_iff (name : String) {source : Source} (h : source.length < 2147483648)
    (hp : (ofSource name source).log.toList = []) :
    let c := ofSource name source
    (c.check.log.toList = [] ↔ ∃ ty, c.program.WellTyped ty) ∧
    ((∃ ty, c.program.WellTyped ty) →
      c.program.sites.map (·.2) = c.program.exprs ∧
      ∀ site ∈ c.program.sites,
        (∀ ty, site.2.HasTy site.1 ty ↔ c.checked.tyOf site.2 = ty) ∧
          c.checked.tyOf site.2 ≠ .unknown) := by
  intro c
  have hw : c.program.Whole := whole_of_log_eq_nil hp
  have hlog : c.check.log.toList = c.program.faults := log_check_of_log_eq_nil hp
  refine ⟨hlog ▸ Program.faults_eq_nil_iff hw, fun htyped => ⟨c.program.map_snd_sites, ?_⟩⟩
  have hnone : c.check.log.toList = [] := by
    rw [hlog]
    exact (Program.faults_eq_nil_iff hw).2 htyped
  have he : c.check.errorCount = 0 := by
    rw [errorCount, Log.errorCount, hnone]
    rfl
  exact (valid_ofSource name h he).typesAt

/-- A variable that is hidden by one of the other type, and read on both sides of the loop. -/
theorem check_log_eq_nil_iff_hiding :
    let source := Source.ofString
      "int x = 1; while x < 9 \x7b x = x + 4; bool x = not false; x = x or x; \x7d return -x;"
    let c := ofSource "hiding" source
    source.length < 2147483648 ∧ c.log.toList = [] ∧ (∃ ty, c.program.WellTyped ty) ∧
      ∀ site ∈ c.program.sites,
        (∀ ty, site.2.HasTy site.1 ty ↔ c.checked.tyOf site.2 = ty) ∧
          c.checked.tyOf site.2 ≠ .unknown := by
  intro source c
  have hlen : source.length < 2147483648 := by decide +kernel
  have hp : c.log.toList = [] := by decide +kernel
  have hnone : c.check.log.toList = [] := by decide +kernel
  obtain ⟨hiff, hsites⟩ := check_log_eq_nil_iff "hiding" hlen hp
  have htyped := hiff.1 hnone
  exact ⟨hlen, hp, htyped, (hsites htyped).2⟩

end Compilation

end WhileLang
