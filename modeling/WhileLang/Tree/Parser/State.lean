import WhileLang.Token.Lexer
import WhileLang.Tree.Basic

/-!
# `WhileLang/Tree/Parser/State.lean` — reading tokens with one token of lookahead

The parser sees **exactly one token ahead**. To take it is to pull the next one from the lexer, and
that is the moment at which the stray characters before the next one are reported; so complaints
about characters and complaints about structure come in source order.

A mismatch is reported at the token ahead, and nothing is skipped: the parser goes on as if what was
expected had been there. One malformed construct can therefore be complained about several times.
-/

set_option autoImplicit false

namespace WhileLang

/-- Which part of the grammar was being read. -/
inductive ParseContext where
  | program
  | result
  /-- What follows the expression that is returned. -/
  | resultEnd
  /-- What follows the program. -/
  | programEnd
  | declaredName
  | declaration
  | initializer
  /-- What follows a declaration. -/
  | declarationEnd
  | assignment
  | assignedValue
  /-- What follows an assignment. -/
  | assignmentEnd
  | condition
  | loop
  | rightOperand (op : BinaryOp)
  | unaryOperand
  | parenthesis
deriving DecidableEq, Repr

def ParseContext.text : ParseContext → String
  | .program => "program"
  | .result => "return expression"
  | .resultEnd => "end of the final return of the program"
  | .programEnd => "end of the program"
  | .declaredName => "identifier of a declaration statement"
  | .declaration => "declaration statement"
  | .initializer => "right-hand side of a declaration statement"
  | .declarationEnd => "end of a declaration statement"
  | .assignment => "assignment statement"
  | .assignedValue => "right-hand side of an assignment statement"
  | .assignmentEnd => "end of an assignment statement"
  | .condition => "condition of a while statement"
  | .loop => "while statement"
  | .rightOperand op => "right-hand side of operator '" ++ op.text ++ "'"
  | .unaryOperand => "unary expression"
  | .parenthesis => "parenthesized expression"

/-- What should have been there. -/
inductive Expected where
  | mark (m : Mark)
  | name
  /-- The begin of an expression. -/
  | operand
deriving DecidableEq, Repr

def Expected.text : Expected → String
  | .mark m => "'" ++ m.text ++ "'"
  | .name => "identifier"
  | .operand => "primary or unary expression"

/-- One element was expected and another was found. -/
structure ParseFault where
  expected : Expected
  found : Token
  context : ParseContext
deriving DecidableEq, Repr

def ParseFault.diagnostic (f : ParseFault) : Diagnostic :=
  .error .parse f.found.span
    ("expected " ++ f.expected.text ++ ", got '" ++ f.found.lexeme.text ++ "' while parsing " ++
      f.context.text)

/-- How far the parser has come. -/
structure ParseState where
  lexer : Lexer
  ahead : Token
  /-- The end of the token taken last; at first, the begin of the first token. -/
  lastEnd : Position
  /-- The number of tokens taken. -/
  taken : Nat
  nextNode : UInt32
  nextDecl : UInt32
  log : Log

namespace ParseState

/-- The state before the first token of `lexer`, with `log` already found. -/
def start (lexer : Lexer) (log : Log) : ParseState :=
  let (reading, rest) := lexer.next
  { lexer := rest
    ahead := reading.token
    lastEnd := reading.token.span.first
    taken := 0
    nextNode := 0
    nextDecl := 0
    log := log.append (reading.strays.map (·.diagnostic)) }

def advance (s : ParseState) : ParseState :=
  let (reading, rest) := s.lexer.next
  { s with
    lexer := rest
    ahead := reading.token
    lastEnd := s.ahead.span.last
    taken := s.taken + 1
    log := s.log.append (reading.strays.map (·.diagnostic)) }

/-- Reports that the token ahead is not the expected one. -/
def report (expected : Expected) (context : ParseContext) (s : ParseState) : ParseState :=
  { s with log := s.log.push (ParseFault.diagnostic ⟨expected, s.ahead, context⟩) }

/-- The number of tokens in sight, the end of the file included. -/
def inSight (s : ParseState) : Nat := s.lexer.upcoming.length + 2

/-- From the token ahead at the time of `begin` to the token taken last. What has taken no token
since then stands at a single place. -/
def spanSince (begin s : ParseState) : Span :=
  if s.taken = begin.taken then .point s.ahead.span.file begin.ahead.span.first
  else ⟨s.ahead.span.file, begin.ahead.span.first, s.lastEnd⟩

end ParseState

/-- A step of the parser. It never fails: what is missing is reported and replaced. -/
abbrev ParseM := StateM ParseState

namespace ParseM

def ahead : ParseM Token := do return (← get).ahead

def advance : ParseM Unit := modify (·.advance)

def report (expected : Expected) (context : ParseContext) : ParseM Unit :=
  modify (·.report expected context)

/-- Takes the token ahead if it is `m`, and reports it otherwise. -/
def expect (m : Mark) (context : ParseContext) : ParseM Unit := do
  if (← ahead).lexeme = .mark m then advance else report (.mark m) context

/-- Gives the next number to a node with this stretch. -/
def node (span : Span) : ParseM Node :=
  modifyGet fun s => (⟨⟨s.nextNode⟩, span⟩, { s with nextNode := s.nextNode + 1 })

/-- Gives the next number to a node that began at `begin` and ends with the token taken last. -/
def nodeSince (begin : ParseState) : ParseM Node := do
  node (begin.spanSince (← get))

/-- Gives the next number to a declaration. -/
def declId : ParseM DeclId :=
  modifyGet fun s => (⟨s.nextDecl⟩, { s with nextDecl := s.nextDecl + 1 })

/-- Takes a name, or reports it as missing and puts a placeholder there. -/
def symbol (context : ParseContext) : ParseM Symbol := do
  let token ← ahead
  match token.lexeme with
  | .name s =>
    advance
    return ⟨s, token.span⟩
  | _ =>
    report .name context
    return .missing token.span

end ParseM

end WhileLang
