import WhileLang.Tree.Parser.Program
import WhileLang.Evaluation
import WhileLang.Target.Code
import WhileLang.Source.FileFault

/-!
# `WhileLang/Compilation.lean` — one program from its source to its outputs

A `Compilation` is a source that was parsed, with everything found out about it. It is checked at
most once, when something first needs it, and **from then on nothing about it changes**. Printing
needs no check and works whatever is wrong; running and compiling to another language check first
and refuse while there are errors, those of the parser included.
-/

set_option autoImplicit false

namespace WhileLang

/-- Why a compilation does not give what was asked for. -/
inductive CompileFault where
  | unreadable (path : String) (cause : FileFault)
  | unresolved (errors : Nat)
  /-- The program cannot be run, although there are no errors in it. -/
  | run (fault : RunFault)
  /-- There is no code for the program, although there are no errors in it. -/
  | code (fault : CodeFault)
deriving DecidableEq, Repr

def errorsText (n : Nat) : String := toString n ++ " error(s) encountered"

def CompileFault.message : CompileFault → String
  | .unreadable path cause => "failed to read source " ++ path ++ ": " ++ cause.message
  | .unresolved n => errorsText n
  | .run fault => "internal error: " ++ fault.message
  | .code fault => "internal error: " ++ fault.message

/-- The forms in which a program can be written. -/
inductive OutputForm where
  | canonical
  | target (t : Target)
deriving DecidableEq, Repr

/-- A program in one of the forms. Only other languages need the annotations. -/
def Program.emit (p : Program) (form : OutputForm) (ann : Annotations) (indent : Indent) :
    Except CodeFault String :=
  match form with
  | .canonical => .ok (p.text indent)
  | .target t => p.code t ann indent

/-- A program, and what was found out about it. -/
structure Compilation where
  files : FileTable
  file : FileId
  program : Program
  log : Log
  /-- What the checker found out, once it was asked. -/
  annotations : Option Annotations

namespace Compilation

def ofSource (name : String) (source : Source) : Compilation :=
  let (file, files) := FileTable.empty.insert name
  let (program, log) := Program.ofSource file source
  ⟨files, file, program, log, none⟩

/-- Parses what was read from a path, if it could be read. -/
def ofRead (path : String) (source : Except FileFault Source) : Except CompileFault Compilation :=
  match source with
  | .ok source => .ok (ofSource path source)
  | .error cause => .error (.unreadable path cause)

def isChecked (c : Compilation) : Bool := c.annotations.isSome

def errorCount (c : Compilation) : Nat := c.log.errorCount

def renderLog (c : Compilation) : String := c.log.render c.files

/-- Checks the program, unless that was done before. -/
def check (c : Compilation) : Compilation :=
  match c.annotations with
  | some _ => c
  | none =>
    { c with log := c.log.append c.program.faults, annotations := some c.program.annotations }

/-- What the checker found out, or would. -/
def checked (c : Compilation) : Annotations := c.annotations.getD c.program.annotations

/-- Refuses a checked program that has errors. -/
def refuse (c : Compilation) : Except CompileFault Unit :=
  if c.check.errorCount = 0 then .ok () else .error (.unresolved c.check.errorCount)

def print (c : Compilation) (indent : Indent) : String := c.program.text indent

/-- The value of the program, each run of a loop taking at most `bound` rounds. It is `none` when
that is not enough. -/
def evaluate (c : Compilation) (bound : Nat) : Option (Except CompileFault Value) :=
  match c.refuse with
  | .error fault => some (.error fault)
  | .ok _ => ((c.program.eval c.checked bound).run).map fun r => r.mapError .run

def emit (c : Compilation) (form : OutputForm) (indent : Indent) : Except CompileFault String :=
  match c.refuse with
  | .error fault => .error fault
  | .ok _ => (c.program.emit form c.checked indent).mapError .code

end Compilation

/-! ## Requests to a compilation -/

/-- What one run can produce. -/
inductive Mode where
  | evaluate
  | print
  | target (t : Target)
deriving DecidableEq, Repr

inductive Request where
  | check
  | print (indent : Indent)
  | evaluate
  | emit (form : OutputForm) (indent : Indent)
  | run (mode : Mode) (indent : Indent)
  | diagnostics
  | render
deriving DecidableEq, Repr

inductive Answer where
  /-- It was checked and has this many declarations. -/
  | checked (declCount : Nat)
  | text (s : String)
  | value (v : Value)
  | diagnostics (log : Log)
  | fault (f : CompileFault)
  | exhausted

namespace Answer

def ofText : Except CompileFault String → Answer
  | .ok s => .text s
  | .error f => .fault f

def ofValue : Option (Except CompileFault Value) → Answer
  | some (.ok v) => .value v
  | some (.error f) => .fault f
  | none => .exhausted

end Answer

namespace Request

/-- Whether a request needs the program checked. -/
def checks : Request → Bool
  | .check | .evaluate | .emit _ _ => true
  | .run mode _ => mode ≠ .print
  | .print _ | .diagnostics | .render => false

end Request

namespace Compilation

/-- The answer to a request, by a compilation that was checked if the request needs it. -/
def answer (bound : Nat) (c : Compilation) : Request → Answer
  | .check => .checked c.checked.declCount
  | .print indent => .text (c.print indent)
  | .evaluate => .ofValue (c.evaluate bound)
  | .emit form indent => .ofText (c.emit form indent)
  | .run .evaluate _ => .ofValue (c.evaluate bound)
  | .run .print indent => .text (c.print indent)
  | .run (.target t) indent => .ofText (c.emit (.target t) indent)
  | .diagnostics => .diagnostics c.log
  | .render => .text c.renderLog

/-- Answers a request, checking the program first if need be. -/
def request (bound : Nat) (r : Request) (c : Compilation) : Answer × Compilation :=
  let c := if r.checks then c.check else c
  (c.answer bound r, c)

/-- Answers requests one after the other. -/
def session (bound : Nat) : List Request → Compilation → List Answer × Compilation
  | [], c => ([], c)
  | r :: rs, c =>
    let (answer, c) := c.request bound r
    let (answers, c) := c.session bound rs
    (answer :: answers, c)

end Compilation

end WhileLang
