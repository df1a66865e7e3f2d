/-!
# `WhileLang/CommandLine/Arguments.lean` — what the command line asks for

    INPUT [--eval] [--print[=PATH]] [--emit-c[=PATH]] [--emit-py[=PATH]] [--indent N]
          [--log-level LEVEL]

There is exactly one input, and each option is given at most once. **The options that take a path
take it only after an equals sign**, so that a word after them is the input; without a path, and
with the path `-`, they mean standard output. After `--` every word is an input. All else is a
usage error, and nothing is done then.
-/

set_option autoImplicit false

namespace WhileLang

inductive LogLevel where
  | off
  | error
  | warn
  | info
  | debug
  | trace
deriving DecidableEq, Repr

/-- The level with this name, in capitals or not. -/
def LogLevel.ofName? (name : String) : Option LogLevel :=
  match String.ofList (name.toList.map Char.toLower) with
  | "off" => some .off
  | "error" => some .error
  | "warn" => some .warn
  | "info" => some .info
  | "debug" => some .debug
  | "trace" => some .trace
  | _ => none

inductive Destination where
  | stdout
  | file (path : String)
deriving DecidableEq, Repr

/-- The destination an option names, if it names one. -/
def Destination.ofValue : Option String → Destination
  | none => .stdout
  | some path => if path = "-" then .stdout else .file path

structure Arguments where
  input : String
  eval : Bool
  print : Option Destination
  emitC : Option Destination
  emitPython : Option Destination
  /-- How many spaces a level is indented by; if absent, by a tab. -/
  indent : Option Nat
  logLevel : Option LogLevel
deriving DecidableEq, Repr

/-- The largest width of an indent. -/
def maxIndent : Nat := 18446744073709551615

/-- Reads a width: digits, possibly with a plus sign before them. -/
def readWidth? (text : String) : Option Nat :=
  let digits := match text.toList with
    | '+' :: rest => rest
    | all => all
  if digits.isEmpty || !digits.all Char.isDigit then none
  else
    let n := Nat.ofDigitChars 10 digits 0
    if n ≤ maxIndent then some n else none

structure ArgumentDraft where
  input : Option String := none
  eval : Bool := false
  print : Option Destination := none
  emitC : Option Destination := none
  emitPython : Option Destination := none
  indent : Option Nat := none
  logLevel : Option LogLevel := none

namespace ArgumentDraft

def addInput (d : ArgumentDraft) (word : String) : Option ArgumentDraft :=
  if d.input.isSome ∨ word = "" then none else some { d with input := some word }

def addIndent (d : ArgumentDraft) (value : String) : Option ArgumentDraft := do
  let width ← readWidth? value
  if d.indent.isSome then none else some { d with indent := some width }

def addLogLevel (d : ArgumentDraft) (value : String) : Option ArgumentDraft := do
  let level ← LogLevel.ofName? value
  if d.logLevel.isSome then none else some { d with logLevel := some level }

/-- Takes an option that needs no word after it. -/
def addOption (d : ArgumentDraft) (name : String) (value : Option String) :
    Option ArgumentDraft :=
  match name, value with
  | "--eval", none => if d.eval then none else some { d with eval := true }
  | "--print", v =>
    if d.print.isSome then none else some { d with print := some (.ofValue v) }
  | "--emit-c", v =>
    if d.emitC.isSome then none else some { d with emitC := some (.ofValue v) }
  | "--emit-py", v =>
    if d.emitPython.isSome then none else some { d with emitPython := some (.ofValue v) }
  | "--indent", some v => d.addIndent v
  | "--log-level", some v => d.addLogLevel v
  | _, _ => none

/-- Whether a word is an option. A lone dash is not. -/
def isOption (word : String) : Bool :=
  match word.toList with
  | '-' :: _ :: _ => true
  | _ => false

/-- An option's name, and what stands after its first equals sign. -/
def splitOption (word : String) : String × Option String :=
  let cs := word.toList
  let name := cs.takeWhile (· ≠ '=')
  match cs.drop name.length with
  | [] => (word, none)
  | _ :: value => (String.ofList name, some (String.ofList value))

def addInputs (d : ArgumentDraft) (words : List String) : Option ArgumentDraft :=
  words.foldlM addInput d

/-- Takes the words of the command line from left to right. -/
def read (d : ArgumentDraft) : List String → Option ArgumentDraft
  | [] => some d
  | "--" :: words => d.addInputs words
  | "--indent" :: value :: words =>
    if isOption value then none else (d.addIndent value).bind (·.read words)
  | "--log-level" :: value :: words =>
    if isOption value then none else (d.addLogLevel value).bind (·.read words)
  | word :: words =>
    let next := if isOption word then
      let (name, value) := splitOption word
      d.addOption name value
    else d.addInput word
    next.bind (·.read words)

def finish (d : ArgumentDraft) : Option Arguments := do
  let input ← d.input
  return ⟨input, d.eval, d.print, d.emitC, d.emitPython, d.indent, d.logLevel⟩

end ArgumentDraft

/-- What the words of a command line ask for; nothing, if they are not used as they should be. -/
def Arguments.ofWords? (words : List String) : Option Arguments := do
  (← ArgumentDraft.read {} words).finish

end WhileLang
