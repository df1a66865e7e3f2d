import WhileLang.Tree.Parser.Expression

/-!
# `WhileLang/Tree/Parser/Program.lean` — statements and programs

The token ahead decides what statement comes: a type opens a declaration, a name an assignment,
`while` a loop, and anything else ends the block. Semicolons between statements mean nothing.
A statement gets its number when it is finished, hence after everything in it.
-/

set_option autoImplicit false

namespace WhileLang

namespace ParseM

/-- Reads a declaration of a variable of type `ty`, from its type on. -/
def declaration (bound : Nat) (ty : Ty) : ParseM Declaration := do
  let begin ← get
  advance
  let symbol ← symbol .declaredName
  expect .assign .declaration
  let init ← expr bound .initializer
  expect .semicolon .declarationEnd
  let decl ← declId
  return ⟨← nodeSince begin, decl, ty, symbol, init⟩

/-- Reads an assignment, from the name of its variable on. -/
def assignment (bound : Nat) (name : String) : ParseM Assignment := do
  let begin ← get
  advance
  expect .assign .assignment
  let value ← expr bound .assignedValue
  expect .semicolon .assignmentEnd
  return ⟨← nodeSince begin, ⟨name, begin.ahead.span⟩, value⟩

/-- Reads statements as long as there are any, when at most so many tokens are in sight. Every round
takes a token, so there is one less for the next. -/
def statements : Nat → ParseM Block
  | 0 => return .done
  | bound + 1 => do
    let begin ← get
    match begin.ahead.lexeme with
    | .mark .semicolon =>
      advance
      statements bound
    | .mark .int =>
      let d ← declaration (bound + 1) .int
      return .declare d (← statements bound)
    | .mark .bool =>
      let d ← declaration (bound + 1) .bool
      return .declare d (← statements bound)
    | .name s =>
      let a ← assignment (bound + 1) s
      return .assign a (← statements bound)
    | .mark .while =>
      advance
      let cond ← expr (bound + 1) .condition
      expect .braceL .loop
      let bodyBegin ← get
      let body ← statements bound
      let bodySpan := bodyBegin.spanSince (← get)
      expect .braceR .loop
      let n ← nodeSince begin
      return .loop ⟨n, cond, bodySpan⟩ body (← statements bound)
    | _ => return .done

/-- Reads a program, up to the end of the file. -/
def program : ParseM Program := do
  let begin ← get
  let body ← statements begin.inSight
  let bodySpan := begin.spanSince (← get)
  expect .return .program
  let result ← expr begin.inSight .result
  expect .semicolon .resultEnd
  let span := begin.spanSince (← get)
  expect .endOfFile .programEnd
  return ⟨span, bodySpan, body, result⟩

end ParseM

/-- The program that the tokens of `lexer` form, and the log with what was found in reading it. -/
def Program.ofLexer (lexer : Lexer) (log : Log) : Program × Log :=
  let (program, state) := ParseM.program.run (.start lexer log)
  (program, state.log)

def Program.ofSource (file : FileId) (source : Source) : Program × Log :=
  ofLexer (.ofSource file source) .empty

end WhileLang
