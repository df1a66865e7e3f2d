import WhileLang.CommandLine.Run
import WhileLang.Proofs.Compilation.Coded
import WhileLang.Proofs.Compilation.Evaluation
import WhileLang.Proofs.Compilation.Session
import WhileLang.Proofs.Parser.Findings

/-!
# `WhileLang/Proofs/CommandLine/Plan.lean` — what a run hands out, and in which order

What a run of the command line hands out depends on the program and on what is asked for, and on
nothing that the host says. This is the **plan** of the run: a list of outputs, and why there are no
more of them. On every host, **a run hands out its plan from the first output on, up to the first
one that cannot be delivered** (`Host.perform_eq_play`).

The plan begins with the canonical text, whatever is wrong with the program. For a program with
errors the findings follow, and that is all: it is neither run nor compiled
(`Compilation.plan_of_errorCount_ne_zero`). A program without errors is carried out in full, unless
it does not stop (`Compilation.plan_ofSource`).
-/

set_option autoImplicit false

namespace WhileLang

/-! ## Plans -/

inductive Output where
  | text (s : String) (dest : Destination)
  /-- What the user is told on the way. -/
  | message (s : String)
deriving DecidableEq, Repr

structure Plan where
  outputs : List Output
  /-- Why there are no more outputs, unless everything was handed out. -/
  stop : Option RunStop
deriving DecidableEq, Repr

namespace Plan

/-- One plan and then the other, unless the first stops. -/
def andThen (p q : Plan) : Plan :=
  match p.stop with
  | none => ⟨p.outputs ++ q.outputs, q.stop⟩
  | some _ => p

/-- A text that is handed out if there is a destination for it. -/
def text? (dest : Option Destination) (text : Except CompileFault String) : Plan :=
  match dest with
  | none => ⟨[], none⟩
  | some dest =>
    match text with
    | .ok s => ⟨[.text s dest], none⟩
    | .error fault => ⟨[], some (.compile fault)⟩

theorem text?_ok (dest : Option Destination) (s : String) :
    text? dest (.ok s) = ⟨dest.toList.map (.text s), none⟩ := by
  cases dest <;> rfl

end Plan

namespace Compilation

/-- What is told of a checked program. Errors stop the run. -/
def findingsPlan (c : Compilation) : Plan where
  outputs := if c.log.isEmpty then [] else [.message (c.renderLog ++ "\n")]
  stop := if c.errorCount = 0 then none else some (.errors c.errorCount)

def valuePlan (c : Compilation) (bound : Nat) : Plan :=
  match c.evaluate bound with
  | some (.ok v) => ⟨[.text (v.text ++ "\n") .stdout], none⟩
  | some (.error fault) => ⟨[], some (.compile fault)⟩
  | none => ⟨[], some .exhausted⟩

end Compilation

def Arguments.indentUnit (args : Arguments) : Indent :=
  args.indent.elim Indent.tab Indent.spaces

/-- What a run hands out for a program. -/
def Compilation.plan (c : Compilation) (bound : Nat) (args : Arguments) : Plan :=
  (Plan.text? args.print (.ok (c.print args.indentUnit))).andThen <|
    c.check.findingsPlan.andThen <|
      (if args.eval then c.check.valuePlan bound else ⟨[], none⟩).andThen <|
        (Plan.text? args.emitC (c.check.emit (.target .c) args.indentUnit)).andThen <|
          Plan.text? args.emitPython (c.check.emit (.target .python) args.indentUnit)

/-! ## Any host -/

namespace Host

variable {m : Type → Type} [Monad m]

def hand (host : Host m) : Output → ExceptT RunStop m Unit
  | .text s dest => host.deliver s dest
  | .message s => host.err s

/-- Hands out a plan, up to the first output that cannot be delivered. -/
def play (host : Host m) (p : Plan) : ExceptT RunStop m Unit := do
  p.outputs.forM host.hand
  match p.stop with
  | none => pure ()
  | some stop => throw stop

variable [LawfulMonad m]

theorem play_andThen (host : Host m) (p q : Plan) :
    host.play (p.andThen q) = host.play p >>= fun _ => host.play q := by
  unfold play Plan.andThen
  cases hstop : p.stop with
  | none => simp [List.forM_append]
  | some stop => simp [hstop]

theorem play_text? (host : Host m) (dest : Option Destination)
    (text : Except CompileFault String) :
    host.play (Plan.text? dest text) = host.deliver? dest text := by
  cases dest with
  | none => simp [play, Plan.text?, deliver?]
  | some dest => cases text <;> simp [play, Plan.text?, deliver?, hand]

theorem play_findingsPlan (host : Host m) (c : Compilation) :
    host.play c.findingsPlan = (do
      unless c.log.isEmpty do
        host.err (c.renderLog ++ "\n")
      if c.errorCount ≠ 0 then
        throw (.errors c.errorCount)) := by
  unfold play Compilation.findingsPlan
  by_cases hlog : c.log.isEmpty <;> by_cases he : c.errorCount = 0 <;> simp [hlog, he, hand]

theorem play_valuePlan (host : Host m) (c : Compilation) (bound : Nat) :
    host.play (c.valuePlan bound) = match c.evaluate bound with
      | some (.ok v) => host.out (v.text ++ "\n")
      | some (.error fault) => throw (.compile fault)
      | none => throw .exhausted := by
  unfold play Compilation.valuePlan
  rcases c.evaluate bound with _ | (fault | v) <;> simp [hand, deliver]

theorem play_plan (host : Host m) (c : Compilation) (bound : Nat) (args : Arguments) :
    host.play (c.plan bound args) = (do
      host.deliver? args.print (.ok (c.print args.indentUnit))
      host.play c.check.findingsPlan
      if args.eval then
        host.play (c.check.valuePlan bound)
      host.deliver? args.emitC (c.check.emit (.target .c) args.indentUnit)
      host.deliver? args.emitPython (c.check.emit (.target .python) args.indentUnit)) := by
  unfold Compilation.plan
  simp only [play_andThen, play_text?]
  by_cases ha : args.eval <;> simp [ha, play]

/-- **A run hands out the plan of what it reads**, whatever the host is. -/
theorem perform_eq_play (host : Host m) (bound : Nat) (args : Arguments) :
    host.perform bound args = (do
      match Compilation.ofRead args.input (← host.read args.input) with
      | .error fault => throw (.compile fault)
      | .ok c => host.play (c.plan bound args)) := by
  unfold perform
  refine bind_congr fun source => ?_
  cases Compilation.ofRead args.input source with
  | error fault => rfl
  | ok c =>
    show _ = host.play (c.plan bound args)
    rw [play_plan, play_findingsPlan, play_valuePlan]
    refine bind_congr fun _ => ?_
    by_cases he : c.check.errorCount = 0
    · by_cases ha : args.eval
      · rcases hv : c.check.evaluate bound with _ | (fault | v) <;>
          by_cases hlog : c.check.log.isEmpty <;>
          simp [hlog, he, ha, hv, Arguments.indentUnit]
      · by_cases hlog : c.check.log.isEmpty <;> simp [hlog, he, ha, Arguments.indentUnit]
    · by_cases hlog : c.check.log.isEmpty <;> simp [hlog, he]

end Host

/-! ## Programs -/

namespace Compilation

/-- Everything that is found is an error. -/
theorem errorCount_check_eq_length (name : String) (source : Source) :
    (ofSource name source).check.errorCount =
      (ofSource name source).check.log.toList.length := by
  rw [errorCount, Log.errorCount, List.countP_eq_length, log_check_ofSource, Log.toList_append,
    List.forall_mem_append]
  refine ⟨fun d hd => decide_eq_true ?_, fun d hd => decide_eq_true ?_⟩
  · exact (Program.isOfParse_ofSource ⟨0⟩ source d hd).1
  · exact Program.severity_of_mem_faults hd

/-- Something is told of a program exactly when it has errors. -/
theorem isEmpty_log_check (name : String) (source : Source) :
    (ofSource name source).check.log.isEmpty = true ↔
      (ofSource name source).check.errorCount = 0 := by
  rw [errorCount_check_eq_length, List.length_eq_zero_iff, Log.isEmpty, Log.toList,
    Array.isEmpty_iff, Array.toList_eq_nil_iff]

theorem findingsPlan_of_errorCount_eq_zero {name : String} {source : Source}
    (h : (ofSource name source).check.errorCount = 0) :
    (ofSource name source).check.findingsPlan = ⟨[], none⟩ := by
  rw [findingsPlan, if_pos ((isEmpty_log_check name source).2 h), if_pos h]

/-- **A program with errors is neither run nor compiled.** Its canonical text is handed out, if that
is asked for, and then what was found; whatever else is asked for makes no difference. -/
theorem plan_of_errorCount_ne_zero {name : String} {source : Source}
    (h : (ofSource name source).check.errorCount ≠ 0) (bound : Nat) (args : Arguments) :
    (ofSource name source).plan bound args =
      ⟨args.print.toList.map (.text ((ofSource name source).print args.indentUnit)) ++
        [.message ((ofSource name source).check.renderLog ++ "\n")],
        some (.errors (ofSource name source).check.errorCount)⟩ := by
  have hfindings : (ofSource name source).check.findingsPlan =
      ⟨[.message ((ofSource name source).check.renderLog ++ "\n")],
        some (.errors (ofSource name source).check.errorCount)⟩ := by
    rw [findingsPlan, if_neg (mt (isEmpty_log_check name source).1 h), if_neg h]
  unfold plan
  rw [Plan.text?_ok, hfindings]
  rfl

/-- A program without errors has code in every form. -/
theorem exists_emit_of_errorCount_eq_zero {name : String} {source : Source}
    (h : (ofSource name source).check.errorCount = 0) (form : OutputForm) (indent : Indent) :
    ∃ text, (ofSource name source).emit form indent = .ok text := by
  cases hemit : (ofSource name source).emit form indent with
  | ok text => exact ⟨text, rfl⟩
  | error fault =>
    have hcode := emit_ne_code name source form indent
    rw [hemit] at hcode
    rw [emit, refuse, if_pos h] at hemit
    cases hp : (ofSource name source).program.emit form (ofSource name source).checked indent with
    | ok text =>
      rw [hp] at hemit
      cases hemit
    | error code =>
      rw [hp] at hemit
      cases hemit
      exact absurd rfl (hcode code)

/-- **A program without errors is carried out in full, unless it does not stop.** All that is asked
for is handed out in this order: the canonical text, the value, the C code, the Python code. If the
value is asked for and the program is not done within the bound, the run stops in its place. -/
theorem plan_ofSource {source : Source} (bound : Nat) (args : Arguments)
    (hlen : source.length < 2147483648)
    (he : (ofSource args.input source).check.errorCount = 0) :
    let c := ofSource args.input source
    let canonical := args.print.toList.map (.text (c.print args.indentUnit))
    ∃ cText pyText, c.emit (.target .c) args.indentUnit = .ok cText ∧
      c.emit (.target .python) args.indentUnit = .ok pyText ∧
      ((args.eval = true ∧ c.evaluate bound = none ∧
          c.plan bound args = ⟨canonical, some .exhausted⟩) ∨
        ∃ value, (args.eval = false ∧ value = [] ∨ args.eval = true ∧ ∃ v,
            c.evaluate bound = some (.ok v) ∧ value = [.text (v.text ++ "\n") .stdout]) ∧
          c.plan bound args = ⟨canonical ++ (value ++ (args.emitC.toList.map (.text cText) ++
            args.emitPython.toList.map (.text pyText))), none⟩) := by
  intro c canonical
  obtain ⟨cText, hc⟩ := exists_emit_of_errorCount_eq_zero he (.target .c) args.indentUnit
  obtain ⟨pyText, hpy⟩ := exists_emit_of_errorCount_eq_zero he (.target .python) args.indentUnit
  refine ⟨cText, pyText, hc, hpy, ?_⟩
  unfold plan
  rw [Plan.text?_ok, findingsPlan_of_errorCount_eq_zero he, emit_check, emit_check, hc, hpy,
    Plan.text?_ok, Plan.text?_ok]
  by_cases ha : args.eval = true
  · rw [if_pos ha, valuePlan, evaluate_check]
    rcases evaluate_cases he (valid_ofSource args.input hlen he) bound with
      ⟨hnone, -⟩ | ⟨v, hv, -, -⟩
    · refine .inl ⟨ha, hnone, ?_⟩
      rw [hnone]
      exact congrArg (Plan.mk · _) (List.append_nil _)
    · refine .inr ⟨_, .inr ⟨ha, v, hv, rfl⟩, ?_⟩
      rw [hv]
      rfl
  · rw [if_neg ha]
    exact .inr ⟨[], .inl ⟨by simpa using ha, rfl⟩, rfl⟩

end Compilation

end WhileLang
