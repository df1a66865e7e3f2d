import WhileLang.Proofs.CommandLine.FileTree
import WhileLang.Proofs.CommandLine.Plan

/-!
# `WhileLang/Proofs/CommandLine/Run.lean` — what a run leaves behind

What a run in memory leaves behind is told from the outputs that were delivered
(`Surroundings.Delivered`): the standard streams have gone on with their texts, one after the other;
a file has the text that was last written to it; and all other files are as they were.

The outputs are those of the plan, from the first one on. **The first one that cannot be delivered
ends the run, and what was delivered before it stays** (`FileTree.runCommand_cases`). So a run that
ends with the exit code zero has delivered everything (`FileTree.delivered_of_exit_zero`), and a
program with errors is at most written in its canonical form (`FileTree.runCommand_of_errors`).
-/

set_option autoImplicit false

namespace WhileLang

namespace Output

def onStdout : Output → String
  | .text s .stdout => s
  | .text _ (.file _) | .message _ => ""

def onStderr : Output → String
  | .message s => s
  | .text _ _ => ""

/-- The output is written to the file at this place of the tree, and this is what it holds then. -/
def LandsAt (t : FileTree) (names : List String) (content : Source) (o : Output) : Prop :=
  ∃ s path, o = .text s (.file path) ∧ t.target? path = some names ∧ content = .ofString s

/-- Why an output cannot be delivered: only files can fail. -/
def Undelivered (stop : RunStop) : Output → Prop
  | .text _ (.file path) =>
    (∃ dir cause, stop = .createDir dir cause) ∨ ∃ cause, stop = .write path cause
  | .text _ .stdout | .message _ => False

theorem exists_file_of_undelivered {stop : RunStop} {o : Output} (h : o.Undelivered stop) :
    ∃ s path, o = .text s (.file path) := by
  rcases o with ⟨s, _ | path⟩ | s
  · cases h
  · exact ⟨s, path, rfl⟩
  · cases h

/-- Of a text that may be asked for and a message, a file is the first one. -/
theorem eq_of_text_message_eq_append {dest : Option Destination} {s s' m path : String}
    {before after : List Output} (h : dest.toList.map (text s) ++ [message m] =
      before ++ text s' (.file path) :: after) :
    dest = some (.file path) ∧ s' = s ∧ before = [] := by
  cases dest with
  | none => cases before <;> simp at h
  | some dest =>
    rcases before with _ | ⟨o, before⟩
    · simp only [Option.toList_some, List.map_cons, List.cons_append, List.nil_append,
        List.cons.injEq, text.injEq] at h
      exact ⟨congrArg some h.1.2, h.1.1.symm, rfl⟩
    · cases before <;> simp at h

theorem LandsAt.of_kept {Written : List String → Source → Prop} {t t' : FileTree}
    {names : List String} {content : Source} {o : Output} (h : o.LandsAt t names content)
    (hk : FileTree.Kept Written t t') : o.LandsAt t' names content := by
  obtain ⟨s, path, ho, htarget, hcontent⟩ := h
  exact ⟨s, path, ho, FileTree.target?_of_kept hk htarget, hcontent⟩

end Output

namespace Surroundings

def withTree (s : Surroundings) (t : FileTree) : Surroundings := { s with tree := t }

def tell (s : Surroundings) (text : String) : Surroundings := { s with stderr := s.stderr ++ text }

/-- What was there is there with what the outputs add to it, and nothing else. -/
structure Delivered (s : Surroundings) (os : List Output) (s' : Surroundings) : Prop where
  stdout : s'.stdout = s.stdout ++ String.join (os.map Output.onStdout)
  stderr : s'.stderr = s.stderr ++ String.join (os.map Output.onStderr)
  /-- Only files to which an output was written have changed. -/
  kept : FileTree.Kept (fun names content => ∃ o ∈ os, o.LandsAt s'.tree names content)
    s.tree s'.tree
  /-- What was written is read, unless a later output was written to the same file. -/
  written : ∀ before text path after, os = before ++ .text text (.file path) :: after →
    ∃ content, s'.tree.read path = .ok content ∧ (content = .ofString text ∨
      ∃ names, s'.tree.target? path = some names ∧
        ∃ o ∈ after, o.LandsAt s'.tree names content)

variable {s s' s₁ s₂ : Surroundings} {o : Output} {os : List Output}

/-- New directories are no output. -/
theorem delivered_withTree {t : FileTree} (h : ∀ Written, FileTree.Kept Written s.tree t) :
    s.Delivered [] (s.withTree t) where
  stdout := String.append_empty.symm
  stderr := String.append_empty.symm
  kept := h _
  written before text path after h := by simp at h

/-- What is delivered first stays, unless it is written again. -/
theorem Delivered.cons (h : s.Delivered [o] s₁) (h' : s₁.Delivered os s₂) :
    s.Delivered (o :: os) s₂ := by
  have hkept := h'.kept
  refine ⟨?_, ?_, ?_, ?_⟩
  · rw [h'.stdout, h.stdout, String.append_assoc, ← String.join_append, ← List.map_append]
    rfl
  · rw [h'.stderr, h.stderr, String.append_assoc, ← String.join_append, ← List.map_append]
    rfl
  · refine (h.kept.mono fun names content hw => ?_).trans (hkept.mono fun names content hw => ?_)
    · obtain ⟨_, ho, hlands⟩ := hw
      obtain rfl := List.mem_singleton.1 ho
      exact ⟨_, List.mem_cons_self, hlands.of_kept hkept⟩
    · obtain ⟨o', ho, hlands⟩ := hw
      exact ⟨o', List.mem_cons_of_mem _ ho, hlands⟩
  · intro before text path after heq
    cases before with
    | cons o' before => exact h'.written before text path after (List.cons.inj heq).2
    | nil =>
      obtain ⟨rfl, rfl⟩ := List.cons.inj heq
      obtain ⟨content, hread, hcontent⟩ := h.written [] text path [] rfl
      have htext : content = .ofString text := by simpa using hcontent
      obtain ⟨content', hread', hsame | ⟨names, htarget, hlands⟩⟩ :=
        FileTree.read_of_kept hkept hread
      · exact ⟨content', hread', .inl (hsame.trans htext)⟩
      · exact ⟨content', hread', .inr ⟨names, FileTree.target?_of_kept hkept htarget, hlands⟩⟩

theorem delivered_stdout (s : Surroundings) (text : String) :
    s.Delivered [.text text .stdout] { s with stdout := s.stdout ++ text } where
  stdout := by simp [Output.onStdout]
  stderr := by simp [Output.onStderr]
  kept := .refl s.tree
  written before t path after h := by
    cases before <;> simp at h

theorem delivered_message (s : Surroundings) (text : String) :
    s.Delivered [.message text] (s.tell text) where
  stdout := by simp [Output.onStdout, tell]
  stderr := by simp [Output.onStderr, tell]
  kept := .refl s.tree
  written before t path after h := by
    cases before <;> simp at h

/-- A file is delivered when it is written, on whatever directories were made for it. -/
theorem delivered_file {t t' : FileTree} {path text : String}
    (ht : ∀ Written, FileTree.Kept Written s.tree t)
    (hwrite : t.write path (.ofString text) = .ok t') :
    s.Delivered [.text text (.file path)] (s.withTree t') where
  stdout := by simp [Output.onStdout, withTree]
  stderr := by simp [Output.onStderr, withTree]
  kept := by
    have hkept := FileTree.kept_write hwrite
    refine (ht _).trans (hkept.mono fun names content hw => ?_)
    exact ⟨_, List.mem_singleton_self _, text, path, rfl,
      FileTree.target?_of_kept hkept hw.1, hw.2⟩
  written before text' path' after h := by
    cases before with
    | nil =>
      obtain ⟨hout, -⟩ := List.cons.inj h
      cases hout
      exact ⟨_, FileTree.read_write hwrite, .inl rfl⟩
    | cons o before => simp at h

/-- What is there after a text that may be asked for, and a message. -/
theorem Delivered.text_message {dest : Option Destination} {text message : String}
    (h : s.Delivered (dest.toList.map (.text text) ++ [.message message]) s') :
    s'.stdout = s.stdout ++ (if dest = some .stdout then text else "") ∧
      s'.stderr = s.stderr ++ message ∧
      FileTree.Kept (fun names content => content = .ofString text ∧
        ∃ path, dest = some (.file path) ∧ s'.tree.target? path = some names) s.tree s'.tree ∧
      ∀ path, dest = some (.file path) → s'.tree.read path = .ok (.ofString text) := by
  refine ⟨h.stdout.trans (congrArg _ ?_), h.stderr.trans (congrArg _ ?_), h.kept.mono ?_, ?_⟩
  · rcases dest with _ | _ | path <;> simp [Output.onStdout]
  · rcases dest with _ | _ | path <;> simp [Output.onStderr]
  · rintro names content ⟨_, ho, text', path, rfl, htarget, rfl⟩
    obtain ⟨rfl, rfl⟩ : text' = text ∧ dest = some (.file path) := by
      rcases dest with _ | _ | _ <;> simp_all
    exact ⟨rfl, path, rfl, htarget⟩
  · rintro path rfl
    obtain ⟨content, hread, rfl | ⟨names, -, o, ho, text', path', rfl, -⟩⟩ :=
      h.written [] text path [.message message] rfl
    · exact hread
    · simp at ho

end Surroundings

/-! ## The host in memory -/

namespace Host

/-- What something comes to in memory, and what is there then. -/
def inMemory {α : Type} (x : ExceptT RunStop (StateM Surroundings) α) (s : Surroundings) :
    Except RunStop α × Surroundings :=
  x.run.run s

variable {α β : Type} {s s' : Surroundings}

theorem inMemory_bind_of_ok {x : ExceptT RunStop (StateM Surroundings) α} {a : α}
    (h : inMemory x s = (.ok a, s')) (f : α → ExceptT RunStop (StateM Surroundings) β) :
    inMemory (x >>= f) s = inMemory (f a) s' := by
  unfold inMemory at h ⊢
  rw [ExceptT.run_bind, StateT.run_bind, h]
  rfl

theorem inMemory_bind_of_error {x : ExceptT RunStop (StateM Surroundings) α} {stop : RunStop}
    (h : inMemory x s = (.error stop, s')) (f : α → ExceptT RunStop (StateM Surroundings) β) :
    inMemory (x >>= f) s = (.error stop, s') := by
  unfold inMemory at h ⊢
  rw [ExceptT.run_bind, StateT.run_bind, h]
  rfl

theorem inMemory_lift {x : StateM Surroundings α} {a : α} (h : x.run s = (a, s')) :
    inMemory (liftM x) s = (.ok a, s') := by
  unfold inMemory
  rw [show (liftM x : ExceptT RunStop (StateM Surroundings) α).run = Except.ok <$> x from rfl,
    StateT.run_map, h]
  rfl

/-- The tree after something was tried has everything that was there, and nothing was said. -/
def Quiet (x : StateM Surroundings (Except FileFault Unit)) (s : Surroundings) : Prop :=
  ∃ result t, x.run s = (result, s.withTree t) ∧ ∀ Written, FileTree.Kept Written s.tree t

theorem run_makeDir (path : String) (s : Surroundings) : (memory.makeDir path).run s =
    match s.tree.makeDir path with
    | .ok t => (.ok (), s.withTree t)
    | .error cause => (.error cause, s) := by
  cases h : s.tree.makeDir path <;> simp [memory, h] <;> rfl

theorem run_write (path text : String) (s : Surroundings) : (memory.write path text).run s =
    match s.tree.write path (.ofString text) with
    | .ok t => (.ok (), s.withTree t)
    | .error cause => (.error cause, s) := by
  cases h : s.tree.write path (.ofString text) <;> simp [memory, h] <;> rfl

theorem run_settle (path : String) (cause : FileFault) (s : Surroundings) :
    (memory.settle path (.error cause)).run s =
      (match s.tree.read path with
        | .error .isDirectory => .ok ()
        | _ => .error cause, s) := by
  unfold settle
  rw [StateT.run_bind]
  show StateT.run (match s.tree.read path with
    | .error .isDirectory => (pure (.ok ()) : StateM Surroundings (Except FileFault Unit))
    | _ => pure (.error cause)) s = _
  split <;> rfl

theorem quiet_pure (result : Except FileFault Unit) (s : Surroundings) :
    Quiet (pure result) s :=
  ⟨result, s.tree, rfl, fun _ => .refl s.tree⟩

theorem quiet_makeDir (path : String) (s : Surroundings) : Quiet (memory.makeDir path) s := by
  have hrun := run_makeDir path s
  cases h : s.tree.makeDir path with
  | ok t =>
    rw [h] at hrun
    exact ⟨.ok (), t, hrun, fun _ => FileTree.kept_makeDir h⟩
  | error cause =>
    rw [h] at hrun
    exact ⟨.error cause, s.tree, hrun, fun _ => .refl s.tree⟩

theorem quiet_settle (path : String) (result : Except FileFault Unit) (s : Surroundings) :
    Quiet (memory.settle path result) s := by
  cases result with
  | ok => exact quiet_pure (.ok ()) s
  | error cause => exact ⟨_, s.tree, run_settle path cause s, fun _ => .refl s.tree⟩

theorem Quiet.bind {x : StateM Surroundings (Except FileFault Unit)}
    {f : Except FileFault Unit → StateM Surroundings (Except FileFault Unit)} (h : Quiet x s)
    (hf : ∀ result s, Quiet (f result) s) : Quiet (x >>= f) s := by
  obtain ⟨result, t, hrun, hk⟩ := h
  obtain ⟨result', t', hrun', hk'⟩ := hf result (s.withTree t)
  refine ⟨result', t', ?_, fun Written => (hk Written).trans (hk' Written)⟩
  rw [StateT.run_bind, hrun]
  exact hrun'

/-- To make directories keeps everything else, also where it fails. -/
theorem quiet_makeDirs (paths : List String) (s : Surroundings) :
    Quiet (memory.makeDirs paths) s := by
  induction paths generalizing s with
  | nil => exact quiet_pure (.ok ()) s
  | cons path above ih =>
    refine (quiet_makeDir path s).bind fun result s => ?_
    split
    · refine (ih s).bind fun result s => ?_
      split
      · exact (quiet_makeDir path s).bind fun result s => quiet_settle path result s
      · exact quiet_pure _ s
    · exact quiet_settle path _ s

/-- An output is delivered, or there is no more than new directories. -/
theorem hand_memory (o : Output) (s : Surroundings) :
    (∃ s', inMemory (memory.hand o) s = (.ok (), s') ∧ s.Delivered [o] s') ∨
      ∃ stop s', inMemory (memory.hand o) s = (.error stop, s') ∧ s.Delivered [] s' ∧
        o.Undelivered stop := by
  rcases o with ⟨text, dest⟩ | text
  · cases dest with
    | stdout => exact .inl ⟨_, rfl, s.delivered_stdout text⟩
    | file path =>
      obtain ⟨result, t, hdirs, hk⟩ := quiet_makeDirs (Path.above path) s
      unfold hand deliver
      rw [inMemory_bind_of_ok (inMemory_lift hdirs)]
      cases result with
      | error cause =>
        exact .inr ⟨.createDir ((Path.above path).headD "") cause, s.withTree t,
          inMemory_bind_of_error rfl _, s.delivered_withTree hk, .inl ⟨_, _, rfl⟩⟩
      | ok =>
        have hwrite := run_write path text (s.withTree t)
        rw [show (s.withTree t).tree = t from rfl] at hwrite
        cases hw : t.write path (.ofString text) with
        | ok t' =>
          rw [hw] at hwrite
          exact .inl ⟨s.withTree t', inMemory_bind_of_ok (inMemory_lift hwrite) _,
            s.delivered_file hk hw⟩
        | error cause =>
          rw [hw] at hwrite
          exact .inr ⟨.write path cause, s.withTree t,
            inMemory_bind_of_ok (inMemory_lift hwrite) _, s.delivered_withTree hk, .inr ⟨_, rfl⟩⟩
  · exact .inl ⟨_, rfl, s.delivered_message text⟩

/-- **The first output that cannot be delivered is the last one that is tried.** -/
theorem forM_hand_memory (os : List Output) (s : Surroundings) :
    (∃ s', inMemory (os.forM memory.hand) s = (.ok (), s') ∧ s.Delivered os s') ∨
      ∃ done o rest stop s', os = done ++ o :: rest ∧
        inMemory (os.forM memory.hand) s = (.error stop, s') ∧ s.Delivered done s' ∧
        o.Undelivered stop := by
  induction os generalizing s with
  | nil => exact .inl ⟨s, rfl, s.delivered_withTree fun _ => .refl s.tree⟩
  | cons o os ih =>
    have hcons : (o :: os).forM memory.hand = memory.hand o >>= fun _ => os.forM memory.hand := rfl
    rw [hcons]
    rcases hand_memory o s with ⟨s₁, hrun, hdel⟩ | ⟨stop, s₁, hrun, hdel, hstop⟩
    · rw [inMemory_bind_of_ok hrun]
      rcases ih s₁ with ⟨s₂, hrun', hdel'⟩ | ⟨done, o', rest, stop, s₂, rfl, hrun', hdel', hstop⟩
      · exact .inl ⟨s₂, hrun', hdel.cons hdel'⟩
      · exact .inr ⟨o :: done, o', rest, stop, s₂, rfl, hrun', hdel.cons hdel', hstop⟩
    · exact .inr ⟨[], o, os, stop, s₁, rfl, inMemory_bind_of_error hrun _, hdel, hstop⟩

/-- A plan is played as far as its outputs can be delivered. -/
theorem play_memory (p : Plan) (s : Surroundings) :
    (∃ s', s.Delivered p.outputs s' ∧ inMemory (memory.play p) s =
      (match p.stop with
        | none => .ok ()
        | some stop => .error stop, s')) ∨
      ∃ done o rest stop s', p.outputs = done ++ o :: rest ∧ s.Delivered done s' ∧
        o.Undelivered stop ∧ inMemory (memory.play p) s = (.error stop, s') := by
  unfold play
  rcases forM_hand_memory p.outputs s with
    ⟨s', hrun, hdel⟩ | ⟨done, o, rest, stop, s', hos, hrun, hdel, hstop⟩
  · refine .inl ⟨s', hdel, ?_⟩
    rw [inMemory_bind_of_ok hrun]
    cases p.stop <;> rfl
  · exact .inr ⟨done, o, rest, stop, s', hos, hdel, hstop, inMemory_bind_of_error hrun _⟩

/-- A run plays the plan of the program that it reads. -/
theorem perform_memory {args : Arguments} {source : Source}
    (h : s.tree.read args.input = .ok source) (bound : Nat) :
    inMemory (memory.perform bound args) s =
      inMemory (memory.play ((Compilation.ofSource args.input source).plan bound args)) s := by
  have hread : (memory.read args.input).run s = (.ok source, s) := by
    rw [← h]
    rfl
  rw [perform_eq_play, inMemory_bind_of_ok (inMemory_lift hread)]
  rfl

theorem perform_memory_of_unread {args : Arguments} {cause : FileFault}
    (h : s.tree.read args.input = .error cause) (bound : Nat) :
    inMemory (memory.perform bound args) s =
      (.error (.compile (.unreadable args.input cause)), s) := by
  have hread : (memory.read args.input).run s = (.error cause, s) := by
    rw [← h]
    rfl
  rw [perform_eq_play, inMemory_bind_of_ok (inMemory_lift hread)]
  rfl

/-- The exit code, and the last words of a run that stops. -/
def ending : Except RunStop Unit × Surroundings → UInt32 × Surroundings
  | (.ok _, s) => (0, s)
  | (.error stop, s) => (1, s.tell stop.text)

theorem run_memory (bound : Nat) (args : Arguments) (s : Surroundings) :
    (memory.run bound args).run s = ending (inMemory (memory.perform bound args) s) := by
  rcases h : inMemory (memory.perform bound args) s with ⟨result, s'⟩
  have hrun : (memory.perform bound args).run.run s = (result, s') := h
  unfold run
  rw [StateT.run_bind, hrun]
  cases result <;> rfl

end Host

/-! ## Runs of the command line -/

namespace FileTree

open Surroundings

variable {tree : FileTree} {words : List String} {args : Arguments} {source : Source}

theorem runCommand_eq_ending (hargs : Arguments.ofWords? words = some args) (bound : Nat) :
    tree.runCommand bound words =
      Host.ending (Host.inMemory (Host.memory.perform bound args) ⟨tree, "", ""⟩) := by
  rw [runCommand, hargs, ← Host.run_memory]

/-- The run of a program is the run of its plan. -/
theorem runCommand_eq_play (hargs : Arguments.ofWords? words = some args)
    (hread : tree.read args.input = .ok source) (bound : Nat) :
    tree.runCommand bound words = Host.ending (Host.inMemory
      (Host.memory.play ((Compilation.ofSource args.input source).plan bound args))
      ⟨tree, "", ""⟩) := by
  rw [runCommand_eq_ending hargs, Host.perform_memory (s := ⟨tree, "", ""⟩) hread]

theorem runCommand_of_unread {cause : FileFault} (hargs : Arguments.ofWords? words = some args)
    (hread : tree.read args.input = .error cause) (bound : Nat) :
    tree.runCommand bound words =
      (1, ⟨tree, "", (RunStop.compile (.unreadable args.input cause)).text⟩) := by
  rw [runCommand_eq_ending hargs, Host.perform_memory_of_unread (s := ⟨tree, "", ""⟩) hread]
  exact congrArg (fun stderr => ((1, ⟨tree, "", stderr⟩) : UInt32 × Surroundings))
    String.empty_append

/-- **What a run delivers.** The outputs of the plan are delivered from the first one on. If all of
them are, the run ends as the plan says. If not, the first one that cannot be delivered ends it with
the exit code one, and the user is told why; what was delivered before stays. -/
theorem runCommand_cases (hargs : Arguments.ofWords? words = some args)
    (hread : tree.read args.input = .ok source) (bound : Nat) :
    let plan := (Compilation.ofSource args.input source).plan bound args
    let start : Surroundings := ⟨tree, "", ""⟩
    (∃ after, start.Delivered plan.outputs after ∧ tree.runCommand bound words =
      match plan.stop with
      | none => (0, after)
      | some stop => (1, after.tell stop.text)) ∨
    ∃ done o rest stop after, plan.outputs = done ++ o :: rest ∧ start.Delivered done after ∧
      o.Undelivered stop ∧ tree.runCommand bound words = (1, after.tell stop.text) := by
  intro plan start
  have hrun := runCommand_eq_play hargs hread bound
  rcases Host.play_memory plan start with
    ⟨after, hdel, hplay⟩ | ⟨done, o, rest, stop, after, hos, hdel, hstop, hplay⟩
  · refine .inl ⟨after, hdel, hrun.trans ?_⟩
    rw [hplay]
    cases plan.stop <;> rfl
  · refine .inr ⟨done, o, rest, stop, after, hos, hdel, hstop, hrun.trans ?_⟩
    rw [hplay]
    rfl

/-- **A run that ends with the exit code zero has done all that it was asked for.** -/
theorem delivered_of_exit_zero {bound : Nat} (h : (tree.runCommand bound words).1 = 0) :
    ∃ args source, Arguments.ofWords? words = some args ∧ tree.read args.input = .ok source ∧
      (Compilation.ofSource args.input source).check.errorCount = 0 ∧
      ((Compilation.ofSource args.input source).plan bound args).stop = none ∧
      Delivered ⟨tree, "", ""⟩ ((Compilation.ofSource args.input source).plan bound args).outputs
        (tree.runCommand bound words).2 := by
  cases hargs : Arguments.ofWords? words with
  | none =>
    rw [runCommand, hargs] at h
    cases h
  | some args =>
    cases hread : tree.read args.input with
    | error cause =>
      rw [runCommand_of_unread hargs hread] at h
      cases h
    | ok source =>
      refine ⟨args, source, rfl, hread, ?_⟩
      rcases runCommand_cases hargs hread bound with
        ⟨after, hdel, hrun⟩ | ⟨_, _, _, stop, after, _, _, _, hrun⟩
      · cases hstop : ((Compilation.ofSource args.input source).plan bound args).stop with
        | some stop =>
          rw [hrun, hstop] at h
          cases h
        | none =>
          rw [hstop] at hrun
          rw [hrun]
          refine ⟨by_contra fun he => ?_, rfl, hdel⟩
          rw [Compilation.plan_of_errorCount_ne_zero he] at hstop
          cases hstop
      · rw [hrun] at h
        cases h

/-! ### Programs with errors -/

/-- Whatever else is asked for makes no difference to a program with errors. -/
theorem runCommand_eq_of_errors {words' : List String} {args' : Arguments}
    (hargs : Arguments.ofWords? words = some args)
    (hargs' : Arguments.ofWords? words' = some args') (hinput : args'.input = args.input)
    (hprint : args'.print = args.print) (hindent : args'.indent = args.indent)
    (hread : tree.read args.input = .ok source)
    (he : (Compilation.ofSource args.input source).check.errorCount ≠ 0) (bound bound' : Nat) :
    tree.runCommand bound' words' = tree.runCommand bound words := by
  have hread' : tree.read args'.input = .ok source := hinput ▸ hread
  have hunit : args'.indentUnit = args.indentUnit := by
    rw [Arguments.indentUnit, hindent, Arguments.indentUnit]
  rw [runCommand_eq_play hargs hread, runCommand_eq_play hargs' hread', hinput,
    Compilation.plan_of_errorCount_ne_zero he, Compilation.plan_of_errorCount_ne_zero he, hprint,
    hunit]

/-- **A program with errors is neither run nor compiled.** What is printed is its canonical text, if
that is asked for, and no file is written but the one that this text is for. The user is told what
is wrong with the program, or why its canonical text could not be written. -/
theorem runCommand_of_errors (hargs : Arguments.ofWords? words = some args)
    (hread : tree.read args.input = .ok source)
    (he : (Compilation.ofSource args.input source).check.errorCount ≠ 0) (bound : Nat) :
    let c := Compilation.ofSource args.input source
    let canonical := c.print args.indentUnit
    let after := (tree.runCommand bound words).2
    (tree.runCommand bound words).1 = 1 ∧
      after.stdout = (if args.print = some .stdout then canonical else "") ∧
      Kept (fun names content => content = .ofString canonical ∧
        ∃ path, args.print = some (.file path) ∧ after.tree.target? path = some names)
        tree after.tree ∧
      ((∀ path, args.print = some (.file path) → after.tree.read path = .ok (.ofString canonical)) ∧
          after.stderr = c.check.renderLog ++ "\n" ++ (RunStop.errors c.check.errorCount).text ∨
        ∃ path stop, args.print = some (.file path) ∧
          (Output.text canonical (.file path)).Undelivered stop ∧ after.stderr = stop.text) := by
  intro c canonical last
  have hplan := Compilation.plan_of_errorCount_ne_zero he bound args
  rcases runCommand_cases hargs hread bound with
    ⟨after, hdel, hrun⟩ | ⟨done, o, rest, stop, after, hos, hdel, hstop, hrun⟩
  · rw [hplan] at hdel hrun
    have hlast : last = after.tell (RunStop.errors c.check.errorCount).text :=
      congrArg Prod.snd hrun
    obtain ⟨hstdout, hstderr, hkept, hread'⟩ := hdel.text_message
    rw [hlast]
    refine ⟨congrArg Prod.fst hrun, hstdout.trans String.empty_append, hkept, .inl ⟨hread', ?_⟩⟩
    exact congrArg (· ++ _) (hstderr.trans String.empty_append)
  · -- only the canonical text can be undelivered, and nothing comes before it
    obtain ⟨text, path, rfl⟩ := Output.exists_file_of_undelivered hstop
    rw [hplan] at hos
    obtain ⟨hprint, rfl, rfl⟩ := Output.eq_of_text_message_eq_append hos
    have hlast : last = after.tell stop.text := congrArg Prod.snd hrun
    have hstdout : after.stdout = "" := hdel.stdout.trans String.empty_append
    have hstderr : after.stderr = "" := hdel.stderr.trans String.empty_append
    rw [hlast]
    refine ⟨congrArg Prod.fst hrun, ?_, ?_, .inr ⟨path, stop, hprint, hstop, ?_⟩⟩
    · rw [hprint]
      exact hstdout
    · exact hdel.kept.mono fun _ _ ⟨_, ho, _⟩ => absurd ho List.not_mem_nil
    · exact (congrArg (· ++ _) hstderr).trans String.empty_append

end FileTree

end WhileLang
