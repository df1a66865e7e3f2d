import WhileLang.CommandLine.Arguments
import WhileLang.CommandLine.FileTree
import WhileLang.Compilation
import WhileLang.Text.Quoted

/-!
# `WhileLang/CommandLine/Run.lean` — doing what the command line asks for

The program reads its input and then gives its outputs in a fixed order: the canonical text, the
findings, the value, the C code, the Python code. **The canonical text comes before the check**, so
that a malformed program can be looked at; everything after the findings needs a program without
errors. The first thing that cannot be done ends the run, and what was written before it stays.

What the run does to the outside goes through a `Host`. There are two: the operating system, in
`WhileLang.Main`, and a tree of files in memory, below.
-/

set_option autoImplicit false

namespace WhileLang

/-- What a run needs of its surroundings. -/
structure Host (m : Type → Type) where
  read : String → m (Except FileFault Source)
  /-- Makes a directory in one that is there. -/
  makeDir : String → m (Except FileFault Unit)
  write : String → String → m (Except FileFault Unit)
  out : String → m Unit
  err : String → m Unit

/-- Why a run ends before its end. -/
inductive RunStop where
  | errors (count : Nat)
  | compile (fault : CompileFault)
  | exhausted
  | createDir (path : String) (cause : FileFault)
  | write (path : String) (cause : FileFault)
deriving DecidableEq, Repr

namespace RunStop

/-- An error and its cause, as shown at the end of a run. -/
def failure (message : String) (cause : Option FileFault) : String :=
  "Error: " ++ message ++ "\n" ++
    match cause with
    | some c => "\nCaused by:\n    " ++ c.message ++ "\n"
    | none => ""

def text : RunStop → String
  | .errors n => errorsText n ++ "\n"
  | .compile fault =>
    failure fault.message (match fault with | .unreadable _ cause => some cause | _ => none)
  | .exhausted => failure "the program does not stop" none
  | .createDir path cause => failure ("failed to create directory " ++ quote path) (some cause)
  | .write path cause => failure ("failed to write output file " ++ path) (some cause)

end RunStop

namespace Host

variable {m : Type → Type} [Monad m]

/-- That a directory cannot be made does not matter if it is there. -/
def settle (host : Host m) (path : String) : Except FileFault Unit → m (Except FileFault Unit)
  | .ok _ => return .ok ()
  | .error cause => do
    match ← host.read path with
    | .error .isDirectory => return .ok ()
    | _ => return .error cause

/-- Makes the first directory of the list, of which each lies in the next: **from the first on, up
to one that can be made or is there, and then back.** -/
def makeDirs (host : Host m) : List String → m (Except FileFault Unit)
  | [] => return .ok ()
  | path :: above => do
    match ← host.makeDir path with
    | .error .notFound =>
      match ← host.makeDirs above with
      | .ok _ => host.settle path (← host.makeDir path)
      | .error cause => return .error cause
    | result => host.settle path result

/-- Hands a text to its destination, making the directories on the way to a file. -/
def deliver (host : Host m) (text : String) : Destination → ExceptT RunStop m Unit
  | .stdout => host.out text
  | .file path => do
    match ← host.makeDirs (Path.above path) with
    | .ok _ => pure ()
    | .error cause => throw (.createDir ((Path.above path).headD "") cause)
    match ← host.write path text with
    | .ok _ => pure ()
    | .error cause => throw (.write path cause)

def deliver? (host : Host m) (destination : Option Destination)
    (text : Except CompileFault String) : ExceptT RunStop m Unit := do
  match destination with
  | none => pure ()
  | some dest =>
    match text with
    | .ok s => host.deliver s dest
    | .error fault => throw (.compile fault)

/-- Does what the command line asks for, up to the first thing that cannot be done. -/
def perform (host : Host m) (bound : Nat) (args : Arguments) : ExceptT RunStop m Unit := do
  let indent := args.indent.elim Indent.tab Indent.spaces
  match Compilation.ofRead args.input (← host.read args.input) with
  | .error fault => throw (.compile fault)
  | .ok c =>
    -- the canonical text comes before the check: it is written for programs with errors too
    host.deliver? args.print (.ok (c.print indent))
    let c := c.check
    unless c.log.isEmpty do
      host.err (c.renderLog ++ "\n")
    if c.errorCount ≠ 0 then
      throw (.errors c.errorCount)
    if args.eval then
      match c.evaluate bound with
      | some (.ok v) => host.out (v.text ++ "\n")
      | some (.error fault) => throw (.compile fault)
      | none => throw .exhausted
    host.deliver? args.emitC (c.emit (.target .c) indent)
    host.deliver? args.emitPython (c.emit (.target .python) indent)

/-- Does what the command line asks for, and gives the exit code. -/
def run (host : Host m) (bound : Nat) (args : Arguments) : m UInt32 := do
  match ← (host.perform bound args).run with
  | .ok _ => return 0
  | .error stop =>
    host.err stop.text
    return 1

end Host

/-! ## A run in memory -/

structure Surroundings where
  tree : FileTree
  stdout : String
  stderr : String

/-- The host that keeps everything in memory. -/
def Host.memory : Host (StateM Surroundings) where
  read path := do return (← get).tree.read path
  makeDir path := do
    match (← get).tree.makeDir path with
    | .ok tree => modify ({ · with tree := tree }); return .ok ()
    | .error cause => return .error cause
  write path text := do
    match (← get).tree.write path (.ofString text) with
    | .ok tree => modify ({ · with tree := tree }); return .ok ()
    | .error cause => return .error cause
  out text := modify fun s => { s with stdout := s.stdout ++ text }
  err text := modify fun s => { s with stderr := s.stderr ++ text }

/-- A run of the command line at the place of work of a tree: the exit code, and the surroundings
after it. A command line that is not used as it should be gives the exit code two and changes
nothing. -/
def FileTree.runCommand (tree : FileTree) (bound : Nat) (words : List String) :
    UInt32 × Surroundings :=
  let surroundings : Surroundings := ⟨tree, "", ""⟩
  match Arguments.ofWords? words with
  | none => (2, surroundings)
  | some args => (Host.memory.run bound args).run surroundings

end WhileLang
