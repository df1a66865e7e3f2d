import WhileLang.Scope

/-!
# `WhileLang/Typing/Fault.lean` — expressions of the wrong type

Every finding names the place of the expression whose type is wrong, the type demanded and the type
found. Only for an assignment is there a second place to look at, where the variable got its type.
-/

set_option autoImplicit false

namespace WhileLang

/-- The place in which an expression of another type was demanded. -/
inductive TypeFault where
  /-- The first value of a variable of type `expected`. -/
  | initializer (symbol : Symbol) (expected actual : Ty)
  | assigned (symbol : Symbol) (target : DeclInfo) (actual : Ty)
  | condition (actual : Ty)
  | left (op : BinaryOp) (actual : Ty)
  | right (op : BinaryOp) (actual : Ty)
  | operand (op : UnaryOp) (actual : Ty)
deriving DecidableEq, Repr

namespace TypeFault

/-- What is said of the types, after the name of the place. -/
def demand (expected actual : Ty) : String :=
  " must be of type '" ++ expected.text ++ "' but is of type '" ++ actual.text ++ "'"

def message : TypeFault → String
  | .initializer s expected actual =>
    "initializer of declaration '" ++ s.name ++ "'" ++ demand expected actual
  | .assigned s target actual =>
    "right-hand side of assignment to '" ++ s.name ++ "'" ++ demand target.ty actual
  | .condition actual => "condition of a while statement" ++ demand .bool actual
  | .left op actual =>
    "left-hand side of operator '" ++ op.text ++ "'" ++ demand op.operand actual
  | .right op actual =>
    "right-hand side of operator '" ++ op.text ++ "'" ++ demand op.operand actual
  | .operand op actual => "operand of operator '" ++ op.text ++ "'" ++ demand op.operand actual

def expected : TypeFault → Ty
  | .initializer _ expected _ => expected
  | .assigned _ target _ => target.ty
  | .condition _ => .bool
  | .left op _ | .right op _ => op.operand
  | .operand op _ => op.operand

def actual : TypeFault → Ty
  | .initializer _ _ actual | .assigned _ _ actual | .condition actual
  | .left _ actual | .right _ actual | .operand _ actual => actual

/-- The finding about the expression at `span`. -/
def diagnostic (f : TypeFault) (span : Span) : Diagnostic :=
  let d := Diagnostic.error .typeMismatch span f.message
  match f with
  | .assigned _ target _ => d.withNote target.span ("'" ++ target.name ++ "' declared here")
  | _ => d

/-- The finding, if the type found does not fit. -/
def check (f : TypeFault) (span : Span) : List Diagnostic :=
  if f.actual.fits f.expected then [] else [f.diagnostic span]

end TypeFault

end WhileLang
