import WhileLang.Ty

/-!
# `WhileLang/Operator.lean` — operators: spelling, types and binding strength

The eleven binary operators fall into three classes, and **the class decides the types**: operands
of one type, and a result. The two comparisons for equality are relational like the others, so they
compare integers only.

Binding strength is a ladder of levels. A binary operator stands on one of them; its left operand
may contain operators of that level and its right operand only those above, so every binary
operator groups to the left. `not` stands between `and` and the comparisons, and the signs above
the product.
-/

set_option autoImplicit false

namespace WhileLang

inductive BinaryOp where
  | add
  | sub
  | mul
  | eq
  | ne
  | lt
  | le
  | gt
  | ge
  | and
  | or
deriving DecidableEq, Repr

inductive UnaryOp where
  /-- The integer itself. -/
  | plus
  | neg
  | not
deriving DecidableEq, Repr

/-- What an operator is about. -/
inductive OpClass where
  /-- Integers to an integer. -/
  | arithmetic
  /-- Integers to a truth value. -/
  | relational
  /-- Truth values to a truth value. -/
  | logical
deriving DecidableEq, Repr

/-- How tightly an operator binds. -/
inductive Level where
  /-- Where any operator may stand. -/
  | lowest
  | or
  | and
  | not
  | rel
  | add
  | mul
  /-- Signs. -/
  | sign
deriving DecidableEq, Repr

def Level.rank : Level → Nat
  | .lowest => 0
  | .or => 1
  | .and => 2
  | .not => 3
  | .rel => 4
  | .add => 5
  | .mul => 6
  | .sign => 7

namespace OpClass

def operand : OpClass → Ty
  | .arithmetic | .relational => .int
  | .logical => .bool

def result : OpClass → Ty
  | .arithmetic => .int
  | .relational | .logical => .bool

end OpClass

namespace BinaryOp

/-- The mark an operator is written as. -/
def mark : BinaryOp → Mark
  | .add => .add
  | .sub => .sub
  | .mul => .mul
  | .eq => .eq
  | .ne => .ne
  | .lt => .lt
  | .le => .le
  | .gt => .gt
  | .ge => .ge
  | .and => .and
  | .or => .or

def ofMark? : Mark → Option BinaryOp
  | .add => some .add
  | .sub => some .sub
  | .mul => some .mul
  | .eq => some .eq
  | .ne => some .ne
  | .lt => some .lt
  | .le => some .le
  | .gt => some .gt
  | .ge => some .ge
  | .and => some .and
  | .or => some .or
  | _ => none

def text (op : BinaryOp) : String := op.mark.text

def opClass : BinaryOp → OpClass
  | .add | .sub | .mul => .arithmetic
  | .eq | .ne | .lt | .le | .gt | .ge => .relational
  | .and | .or => .logical

def operand (op : BinaryOp) : Ty := op.opClass.operand

def result (op : BinaryOp) : Ty := op.opClass.result

/-- The level an operator stands on: its left operand may contain operators from here on. -/
def level : BinaryOp → Level
  | .or => .or
  | .and => .and
  | .eq | .ne | .lt | .le | .gt | .ge => .rel
  | .add | .sub => .add
  | .mul => .mul

/-- The level from which on operators may stand in the right operand: the next one. -/
def rightLevel : BinaryOp → Level
  | .or => .and
  | .and => .not
  | .eq | .ne | .lt | .le | .gt | .ge => .add
  | .add | .sub => .mul
  | .mul => .sign

theorem ofMark?_eq_some_iff {m : Mark} {op : BinaryOp} : ofMark? m = some op ↔ m = op.mark := by
  constructor
  · intro h; cases m <;> cases h <;> rfl
  · rintro rfl; cases op <;> rfl

@[simp] theorem ofMark?_mark (op : BinaryOp) : ofMark? op.mark = some op :=
  ofMark?_eq_some_iff.2 rfl

/-- No two operators are written alike. -/
theorem mark_inj {a b : BinaryOp} : a.mark = b.mark ↔ a = b := by
  constructor
  · intro h
    exact Option.some.inj (ofMark?_mark a ▸ h ▸ ofMark?_mark b)
  · rintro rfl; rfl

theorem mark_ne_endOfFile (op : BinaryOp) : op.mark ≠ .endOfFile := by
  cases op <;> simp [mark]

theorem rank_rightLevel (op : BinaryOp) : op.rightLevel.rank = op.level.rank + 1 := by
  cases op <;> rfl

end BinaryOp

namespace UnaryOp

def mark : UnaryOp → Mark
  | .plus => .add
  | .neg => .sub
  | .not => .not

def ofMark? : Mark → Option UnaryOp
  | .add => some .plus
  | .sub => some .neg
  | .not => some .not
  | _ => none

def text (op : UnaryOp) : String := op.mark.text

/-- The type of the operand, which is that of the result. -/
def operand : UnaryOp → Ty
  | .not => .bool
  | .plus | .neg => .int

/-- The level from which on operators may stand in the operand. -/
def level : UnaryOp → Level
  | .not => .not
  | .plus | .neg => .sign

theorem ofMark?_eq_some_iff {m : Mark} {op : UnaryOp} : ofMark? m = some op ↔ m = op.mark := by
  constructor
  · intro h; cases m <;> cases h <;> rfl
  · rintro rfl; cases op <;> rfl

@[simp] theorem ofMark?_mark (op : UnaryOp) : ofMark? op.mark = some op :=
  ofMark?_eq_some_iff.2 rfl

theorem mark_inj {a b : UnaryOp} : a.mark = b.mark ↔ a = b := by
  cases a <;> cases b <;> simp [mark]

theorem mark_ne_endOfFile (op : UnaryOp) : op.mark ≠ .endOfFile := by
  cases op <;> simp [mark]

end UnaryOp

/-! ## What a kind of token can be -/

namespace Tag

def isType : Tag → Bool
  | .mark m => (Ty.ofMark? m).isSome
  | _ => false

def isBinary : Tag → Bool
  | .mark m => (BinaryOp.ofMark? m).isSome
  | _ => false

/-- Whether the token can stand between two operands, with an operator of this class. -/
def isOfClass (c : OpClass) : Tag → Bool
  | .mark m => (BinaryOp.ofMark? m).any fun op => op.opClass = c
  | _ => false

def isUnary : Tag → Bool
  | .mark m => (UnaryOp.ofMark? m).isSome
  | _ => false

end Tag

end WhileLang
