import WhileLang.CommandLine.Run

/-!
# `WhileLang/Main.lean` — the command line program

The outermost layer: it connects `Host` to the operating system and decides nothing.
-/

set_option autoImplicit false

namespace WhileLang

/-- The cause that an error of the operating system stands for. -/
def FileFault.ofError : IO.Error → FileFault
  | .noFileOrDirectory .. => .notFound
  | .alreadyExists .. => .alreadyExists
  | .resourceExhausted .. => .other "resources exhausted"
  | .inappropriateType _ code details =>
    if code = 20 then .notDirectory else if code = 21 then .isDirectory else .other details
  | .invalidArgument _ code details => if code = 36 then .nameTooLong else .other details
  | e => .other (toString e)

/-- The result of an action, with what went wrong as a value. -/
def attempt {α : Type} (action : IO α) : IO (Except FileFault α) := do
  match ← action.toBaseIO with
  | .ok a => return .ok a
  | .error e => return .error (.ofError e)

/-- The host that is the operating system. -/
def Host.system : Host IO where
  read path := attempt do return (← IO.FS.readBinFile path).toList
  makeDir path := attempt (IO.FS.createDir path)
  write path text := attempt (IO.FS.writeFile path text)
  out := IO.print
  err := IO.eprint

/-- More rounds than any run of a loop will take. -/
def amplyMany : Nat := 4611686018427387904

end WhileLang

/-- Compiles or runs the program named on the command line. -/
def main (words : List String) : IO UInt32 := do
  match WhileLang.Arguments.ofWords? words with
  | none =>
    IO.eprintln <| "usage: INPUT [--eval] [--print[=PATH]] [--emit-c[=PATH]] [--emit-py[=PATH]] " ++
      "[--indent N] [--log-level LEVEL]"
    return 2
  | some args => WhileLang.Host.system.run WhileLang.amplyMany args
