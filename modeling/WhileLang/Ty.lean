import WhileLang.Token.Basic

/-!
# `WhileLang/Ty.lean` — the types of values

There are two real types. `Ty.unknown` is what an expression gets whose type cannot be told because
something in it was already complained about; it **fits everywhere**, so that one mistake does not
lead to a chain of complaints.
-/

set_option autoImplicit false

namespace WhileLang

/-- The types of values, and the absence of one. -/
inductive Ty where
  | int
  | bool
  /-- Not known, because of an error found before. -/
  | unknown
deriving DecidableEq, Repr

namespace Ty

def text : Ty → String
  | .int => "int"
  | .bool => "bool"
  | .unknown => "unknown"

def ofMark? : Mark → Option Ty
  | .int => some .int
  | .bool => some .bool
  | _ => none

theorem ne_endOfFile_of_ofMark? {m : Mark} {t : Ty} (h : ofMark? m = some t) : m ≠ .endOfFile := by
  rintro rfl
  cases h

def isUnknown (t : Ty) : Bool := t = .unknown

/-- Whether a value of type `t` may stand where `expected` is demanded. -/
def fits (t expected : Ty) : Bool :=
  t.isUnknown || expected.isUnknown || t = expected

end Ty

end WhileLang
