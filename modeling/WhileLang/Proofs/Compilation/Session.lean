import WhileLang.Proofs.Compilation.Evaluation

/-!
# `WhileLang/Proofs/Compilation/Session.lean` — requests do not disturb each other

Whichever request first needs the program checked has it checked, and whether it then succeeds or
fails makes no difference. So a compilation is only ever met in two states, as it was parsed and as
it was checked: **where a session stands depends on nothing but whether it has checked so far**
(`state_session`). Between the two states only the log differs. What a request is answered is
therefore what it would have been answered at first, unless it asks for the log itself
(`session_ofSource`).
-/

set_option autoImplicit false

namespace WhileLang

/-- Whether a request is refused as long as there are errors. -/
def Request.isGated : Request → Bool
  | .evaluate | .emit _ _ => true
  | .run mode _ => mode ≠ .print
  | .check | .print _ | .diagnostics | .render => false

namespace Compilation

/-- The log after these requests: the parser's, with that of one check once there was one. -/
def logAfter (c : Compilation) (rs : List Request) : Log :=
  if rs.any Request.checks then c.log.append c.program.faults else c.log

/-- What a request is answered after these requests. -/
def answerAfter (bound : Nat) (c : Compilation) (rs : List Request) : Request → Answer
  | .diagnostics => .diagnostics (c.logAfter rs)
  | .render => .text ((c.logAfter rs).render c.files)
  | r => (c.request bound r).1

/-! ## The two states -/

theorem check_of_annotations {c : Compilation} {ann : Annotations}
    (h : c.annotations = some ann) : c.check = c := by
  unfold check
  rw [h]

theorem annotations_check (c : Compilation) : c.check.annotations = some c.checked := by
  unfold check checked
  cases h : c.annotations with
  | none => rfl
  | some ann => exact h

theorem check_check (c : Compilation) : c.check.check = c.check :=
  check_of_annotations c.annotations_check

theorem program_check (c : Compilation) : c.check.program = c.program := by
  unfold check
  cases c.annotations <;> rfl

theorem checked_check (c : Compilation) : c.check.checked = c.checked := by
  rw [checked, annotations_check, Option.getD_some]

theorem refuse_check (c : Compilation) : c.check.refuse = c.refuse := by
  rw [refuse, check_check, refuse]

theorem evaluate_check (c : Compilation) (bound : Nat) :
    c.check.evaluate bound = c.evaluate bound := by
  rw [evaluate, refuse_check, program_check, checked_check, evaluate]

theorem emit_check (c : Compilation) (form : OutputForm) (indent : Indent) :
    c.check.emit form indent = c.emit form indent := by
  rw [emit, refuse_check, program_check, checked_check, emit]

theorem print_check (c : Compilation) (indent : Indent) :
    c.check.print indent = c.print indent := by
  rw [print, program_check, print]

/-- In both states a request has one answer, unless it asks for the log. -/
theorem answer_check (bound : Nat) (c : Compilation) {r : Request} (hd : r ≠ .diagnostics)
    (hr : r ≠ .render) : c.check.answer bound r = c.answer bound r := by
  cases r with
  | check => exact congrArg (fun ann => Answer.checked ann.declCount) c.checked_check
  | print indent => exact congrArg Answer.text (c.print_check indent)
  | evaluate => exact congrArg Answer.ofValue (c.evaluate_check bound)
  | emit form indent => exact congrArg Answer.ofText (c.emit_check form indent)
  | run mode indent =>
    cases mode with
    | evaluate => exact congrArg Answer.ofValue (c.evaluate_check bound)
    | print => exact congrArg Answer.text (c.print_check indent)
    | target t => exact congrArg Answer.ofText (c.emit_check (.target t) indent)
  | diagnostics => exact absurd rfl hd
  | render => exact absurd rfl hr

/-- The first answer does not show which of the two states it was given in. -/
theorem request_eq_answer (bound : Nat) (c : Compilation) {r : Request} (hd : r ≠ .diagnostics)
    (hr : r ≠ .render) : (c.request bound r).1 = c.answer bound r := by
  show (if r.checks then c.check else c).answer bound r = c.answer bound r
  by_cases h : r.checks = true
  · rw [if_pos h, answer_check bound c hd hr]
  · rw [if_neg h]

/-! ## Sessions -/

theorem session_cons (bound : Nat) (c : Compilation) (r : Request) (rs : List Request) :
    c.session bound (r :: rs) =
      ((c.request bound r).1 :: ((c.request bound r).2.session bound rs).1,
        ((c.request bound r).2.session bound rs).2) := rfl

/-- **A session has checked, or it has changed nothing.** -/
theorem state_session (bound : Nat) (c : Compilation) (rs : List Request) :
    (c.session bound rs).2 = if rs.any Request.checks then c.check else c := by
  induction rs generalizing c with
  | nil => rfl
  | cons r rs ih =>
    rw [session_cons, ih, List.any_cons]
    show (if rs.any Request.checks then (if r.checks then c.check else c).check
      else if r.checks then c.check else c) = _
    by_cases hr : r.checks = true
    · -- the rest finds it checked, and checking it again is nothing
      rw [if_pos hr, check_check, ite_self, hr, Bool.true_or, if_pos rfl]
    · rw [if_neg hr, Bool.eq_false_iff.2 hr, Bool.false_or]

theorem answers_append (bound : Nat) (c : Compilation) (rs rs' : List Request) :
    (c.session bound (rs ++ rs')).1 =
      (c.session bound rs).1 ++ ((c.session bound rs).2.session bound rs').1 := by
  induction rs generalizing c with
  | nil => rfl
  | cons r rs ih => rw [List.cons_append, session_cons, session_cons, ih, List.cons_append]

theorem length_answers (bound : Nat) (c : Compilation) (rs : List Request) :
    (c.session bound rs).1.length = rs.length := by
  induction rs generalizing c with
  | nil => rfl
  | cons r rs ih => rw [session_cons, List.length_cons, List.length_cons, ih]

/-- Every request of a session is answered by the state that those before it leave. -/
theorem answer_session (bound : Nat) (c : Compilation) (before : List Request) (r : Request)
    (after : List Request) :
    (c.session bound (before ++ r :: after)).1[before.length]? =
      some ((c.session bound before).2.request bound r).1 := by
  rw [answers_append, List.getElem?_append_right (length_answers bound c before).le,
    length_answers, Nat.sub_self, session_cons, List.getElem?_cons_zero]

/-! ## A compilation that was not checked yet -/

section

variable {c : Compilation} (h : c.annotations = none)

include h

theorem check_of_unchecked : c.check =
    { c with log := c.log.append c.program.faults, annotations := some c.program.annotations } := by
  unfold check
  rw [h]

theorem log_session (bound : Nat) (rs : List Request) :
    (c.session bound rs).2.log = c.logAfter rs := by
  rw [state_session, logAfter, apply_ite log, check_of_unchecked h]

theorem isChecked_session (bound : Nat) (rs : List Request) :
    (c.session bound rs).2.isChecked = rs.any Request.checks := by
  rw [state_session, apply_ite isChecked]
  have hchecked : c.check.isChecked = true := by
    rw [isChecked, annotations_check, Option.isSome_some]
  have hfresh : c.isChecked = false := by
    rw [isChecked, h, Option.isSome_none]
  rw [hchecked, hfresh]
  cases rs.any Request.checks <;> rfl

/-- The state that a session leaves gives the answers of the first state, and the log so far. -/
theorem request_session (bound : Nat) (rs : List Request) (r : Request) :
    ((c.session bound rs).2.request bound r).1 = c.answerAfter bound rs r := by
  have hlog := log_session h bound rs
  have hfiles : (c.session bound rs).2.files = c.files := by
    rw [state_session, apply_ite files, check_of_unchecked h, ite_self]
  by_cases hd : r = .diagnostics
  · subst hd
    show Answer.diagnostics (c.session bound rs).2.log = _
    rw [hlog]
    rfl
  · by_cases hr : r = .render
    · subst hr
      show Answer.text ((c.session bound rs).2.log.render (c.session bound rs).2.files) = _
      rw [hlog, hfiles]
      rfl
    · have hfirst : c.answerAfter bound rs r = (c.request bound r).1 := by
        cases r <;> first | rfl | contradiction
      rw [hfirst, request_eq_answer bound _ hd hr, request_eq_answer bound c hd hr, state_session]
      by_cases hc : rs.any Request.checks = true
      · rw [if_pos hc, answer_check bound c hd hr]
      · rw [if_neg hc]

end

/-- Every request for what needs a correct program is refused while there are errors. -/
theorem request_of_isGated {c : Compilation} (he : c.check.errorCount ≠ 0) (bound : Nat)
    {r : Request} (hr : r.isGated = true) :
    (c.request bound r).1 = .fault (.unresolved c.check.errorCount) := by
  have hvalue : Answer.ofValue (c.evaluate bound) = .fault (.unresolved c.check.errorCount) := by
    rw [evaluate_of_errorCount_ne_zero he]
    rfl
  have htext (form : OutputForm) (indent : Indent) :
      Answer.ofText (c.emit form indent) = .fault (.unresolved c.check.errorCount) := by
    rw [emit, refuse, if_neg he]
    rfl
  cases r with
  | check | print | diagnostics | render => cases hr
  | evaluate =>
    rw [request_eq_answer bound c (by simp) (by simp)]
    exact hvalue
  | emit form indent =>
    rw [request_eq_answer bound c (by simp) (by simp)]
    exact htext form indent
  | run mode indent =>
    rw [request_eq_answer bound c (by simp) (by simp)]
    cases mode with
    | evaluate => exact hvalue
    | print => simp [Request.isGated] at hr
    | target t => exact htext (.target t) indent

/-- **Answers do not depend on the order of requests.** Wherever a session has come to, the log is
the parser's until the first request that checks and from then on has the findings of one check
after it. The next request is answered as it would be at first, a request for the log with the log
so far; and while there are errors, everything that needs a correct program is refused with their
total number. -/
theorem session_ofSource (name : String) (source : Source) (bound : Nat) (before : List Request)
    (r : Request) (after : List Request) :
    let c := ofSource name source
    let reached := (c.session bound before).2
    let total := (c.log.append c.program.faults).errorCount
    (reached.log = c.logAfter before ∧ reached.isChecked = before.any Request.checks) ∧
    (c.session bound (before ++ r :: after)).1[before.length]? =
      some (c.answerAfter bound before r) ∧
    (total ≠ 0 → r.isGated = true → c.answerAfter bound before r = .fault (.unresolved total)) := by
  intro c reached total
  have hfresh : c.annotations = none := rfl
  refine ⟨⟨log_session hfresh bound before, isChecked_session hfresh bound before⟩, ?_, ?_⟩
  · rw [answer_session, request_session hfresh]
  · intro he hr
    have htotal : c.check.errorCount = total := by
      rw [errorCount, log_check_ofSource]
    have hfirst : c.answerAfter bound before r = (c.request bound r).1 := by
      cases r <;> first | rfl | cases hr
    rw [hfirst, ← htotal]
    exact request_of_isGated (htotal ▸ he) bound hr

/-- A program with an undeclared name, asked for its value after it was refused twice. -/
theorem session_ofSource_refused :
    let c := ofSource "refused" (Source.ofString "int x = y; return x;")
    let before := [.print .tab, .diagnostics, .evaluate, .emit .canonical .tab, .diagnostics]
    (c.session 3 before).2.log = c.log.append c.program.faults ∧
      (c.session 3 (before ++ .run .evaluate .tab :: [.check])).1[5]? =
        some (.fault (.unresolved 1)) := by
  intro c before
  obtain ⟨⟨hlog, -⟩, hanswer, hrefused⟩ := session_ofSource "refused"
    (Source.ofString "int x = y; return x;") 3 before (.run .evaluate .tab) [.check]
  have hone : (c.log.append c.program.faults).errorCount = 1 := by decide +kernel
  refine ⟨hlog, ?_⟩
  have hfault := hrefused (by rw [hone]; exact Nat.one_ne_zero) rfl
  rw [hone] at hfault
  exact hanswer.trans (congrArg some hfault)

end Compilation

end WhileLang
