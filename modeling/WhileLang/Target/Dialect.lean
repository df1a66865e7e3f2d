import WhileLang.Tree.Printer

/-!
# `WhileLang/Target/Dialect.lean` — how C and Python spell things

The two target languages agree with the source language on all operators but the logical ones,
which C writes with signs. They differ in the truth values, in what ends a statement and in what
holds a block together: braces in C, depth alone in Python.

**C has no negative literals**, and the negative of the least integer is too large for any of its
types; so the least integer is written there as a difference.
-/

set_option autoImplicit false

namespace WhileLang

/-- The languages a program can be compiled to. -/
inductive Target where
  | c
  | python
deriving DecidableEq, Repr

namespace Target

def binary : Target → BinaryOp → String
  | .c, .and => "&&"
  | .c, .or => "||"
  | _, op => op.text

def unary : Target → UnaryOp → String
  | .c, .not => "!"
  | _, op => op.text

def bool : Target → Bool → String
  | .c, b => boolText b
  | .python, true => "True"
  | .python, false => "False"

def int : Target → Int64 → String
  | .c, v => if v = Int64.minValue then "(-9223372036854775807LL - 1)" else toString v
  | .python, v => toString v

/-- The name of a variable: that of the source, made unique by the number of its declaration. -/
def varName (name : String) (decl : DeclId) : String :=
  "_" ++ name ++ "_" ++ decl.text

def assign : Target → String → String → String
  | .c, name, value => name ++ " = " ++ value ++ ";"
  | .python, name, value => name ++ " = " ++ value

def loopHead : Target → String → String
  | .c, cond => "while (" ++ cond ++ ") \x7b"
  | .python, cond => "while " ++ cond ++ ":"

/-- What stands in a loop before its body: Python does not let a body be empty. -/
def bodyBegin (target : Target) (depth : Nat) (body : Block) : List Line :=
  if target = .python ∧ body.isEmpty then [⟨depth, "pass"⟩] else []

def loopEnd : Target → Nat → List Line
  | .c, depth => [⟨depth, "\x7d"⟩]
  | .python, _ => []

/-- What stands before the statements of a program. -/
def preamble : Target → List Line
  | .c => [⟨0, "#include <stdbool.h>"⟩, ⟨0, "#include <stdio.h>"⟩, ⟨0, ""⟩, ⟨0, "int main() \x7b"⟩]
  | .python => []

/-- The depth at which the statements of a program stand. -/
def bodyDepth : Target → Nat
  | .c => 1
  | .python => 0

/-- The statement that prints the result of a program, which is of type `ty`. -/
def print : Target → Ty → String → String
  | .c, .bool, e => "printf(" ++ e ++ " ? \"true\\n\" : \"false\\n\");"
  | .c, _, e => "printf(\"%lld\\n\", (long long)(" ++ e ++ "));"
  | .python, .bool, e => "print(\"true\" if " ++ e ++ " else \"false\")"
  | .python, _, e => "print(" ++ e ++ ")"

/-- What stands after the result was printed. -/
def epilogue : Target → List Line
  | .c => [⟨1, "return 0;"⟩, ⟨0, "\x7d"⟩]
  | .python => []

end Target

end WhileLang
