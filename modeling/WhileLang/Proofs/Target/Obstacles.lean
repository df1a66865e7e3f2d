import WhileLang.Target.Code

/-!
# `WhileLang/Proofs/Target/Obstacles.lean` — what stands in the way of code

Writing code fails at the first thing that has none. Which things can do that is listed here apart
from the writing: `Program.parts` are **the expressions and the targets of assignments in the order
in which their text is written**, and `Part.fault?` says of each by itself, from the tables alone,
whether it has code. Then a program has code in a language exactly when none of its parts has a
fault, and otherwise its fault is that of the first part that has one (`Program.faultOf_code`). The
language and the texts that were written before have no part in it.
-/

set_option autoImplicit false

namespace WhileLang

/-! ## Computations that can fail -/

section

variable {ε α β : Type}

/-- The fault of a computation that fails. -/
def faultOf : Except ε α → Option ε
  | .ok _ => none
  | .error e => some e

@[simp] theorem faultOf_ok (a : α) : faultOf (.ok a : Except ε α) = none := rfl

@[simp] theorem faultOf_error (e : ε) : faultOf (.error e : Except ε α) = some e := rfl

theorem faultOf_eq_none_iff {x : Except ε α} : faultOf x = none ↔ ∃ a, x = .ok a := by
  cases x <;> simp

theorem faultOf_eq_some_iff {x : Except ε α} {e : ε} : faultOf x = some e ↔ x = .error e := by
  cases x <;> simp

/-- Of two computations the fault is that of the first, or else that of the second, if the latter
does not depend on what the first one gives. -/
theorem faultOf_bind {x : Except ε α} {f : α → Except ε β} {o : Option ε}
    (h : ∀ a, faultOf (f a) = o) : faultOf (x >>= f) = (faultOf x).or o := by
  cases x with
  | ok a => exact h a
  | error e => rfl

theorem faultOf_bind_ok {x : Except ε α} {f : α → β} :
    faultOf (x >>= fun a => .ok (f a)) = faultOf x := by
  rw [faultOf_bind (o := none) fun _ => rfl, Option.or_none]

end

/-! ## The parts of a program -/

/-- What can be without code: an expression, or the variable that an assignment writes to. -/
inductive Part where
  | expr (e : Expr)
  | target (a : Assignment)
deriving DecidableEq, Repr

/-- Why there is no code for a variable, if there is none. -/
def Annotations.varFault? (ann : Annotations) (node : NodeId) (name : String) :
    Option CodeFault :=
  match ann.binding? node with
  | some _ => none
  | none => some (.unresolved name)

/-- Why there is no code for a part, if its own parts have code. -/
def Part.fault? (ann : Annotations) : Part → Option CodeFault
  | .expr (.var n s) => ann.varFault? n.id s.name
  | .expr (.hole _) => some .hole
  | .expr _ => none
  | .target a => ann.varFault? a.node.id a.symbol.name

/-- The parts of an expression, operands before operators. -/
def Expr.parts (e : Expr) : List Part := e.nodes.map .expr

/-- The parts of a block: a value before the variable it goes to, a condition before the body. -/
def Block.parts : Block → List Part
  | .done => []
  | .declare d rest => d.init.parts ++ rest.parts
  | .assign a rest => a.value.parts ++ .target a :: rest.parts
  | .loop w body rest => w.cond.parts ++ body.parts ++ rest.parts

def Program.parts (p : Program) : List Part := p.body.parts ++ p.result.parts

/-- The fault of the first part that has one. -/
def firstFault (ann : Annotations) (parts : List Part) : Option CodeFault :=
  parts.findSome? (·.fault? ann)

section

variable {ann : Annotations} {parts before after : List Part}

@[simp] theorem firstFault_nil : firstFault ann [] = none := rfl

@[simp] theorem firstFault_append :
    firstFault ann (before ++ after) = (firstFault ann before).or (firstFault ann after) :=
  List.findSome?_append

@[simp] theorem firstFault_cons {part : Part} :
    firstFault ann (part :: parts) = (part.fault? ann).or (firstFault ann parts) := by
  unfold firstFault
  rw [List.findSome?_cons]
  cases part.fault? ann <;> rfl

theorem firstFault_eq_none_iff :
    firstFault ann parts = none ↔ ∀ part ∈ parts, part.fault? ann = none := by
  simp [firstFault]

theorem firstFault_eq_some_iff {fault : CodeFault} :
    firstFault ann parts = some fault ↔ ∃ before part after, parts = before ++ part :: after ∧
      (∀ q ∈ before, q.fault? ann = none) ∧ part.fault? ann = some fault := by
  unfold firstFault
  rw [List.findSome?_eq_some_iff]
  constructor
  · rintro ⟨before, part, after, hsplit, hpart, hbefore⟩
    exact ⟨before, part, after, hsplit, hbefore, hpart⟩
  · rintro ⟨before, part, after, hsplit, hbefore, hpart⟩
    exact ⟨before, part, after, hsplit, hpart, hbefore⟩

end

theorem Annotations.varFault?_eq_none_iff {ann : Annotations} {node : NodeId} {name : String} :
    ann.varFault? node name = none ↔ ∃ d, ann.binding? node = some d := by
  unfold varFault?
  cases ann.binding? node <;> simp

theorem Expr.fault?_eq_none_iff {ann : Annotations} {e : Expr} :
    (Part.expr e).fault? ann = none ↔
      (∀ n, e ≠ .hole n) ∧ ∀ n s, e = .var n s → ∃ d, ann.binding? n.id = some d := by
  cases e with
  | var n s =>
    rw [Part.fault?, Annotations.varFault?_eq_none_iff]
    constructor
    · intro h
      exact ⟨by simp, fun n' s' heq => (Expr.var.inj heq).1 ▸ h⟩
    · intro h
      exact h.2 n s rfl
  | binary | unary | bool | int | hole => simp [Part.fault?]

/-! ## No part of a tree is left out -/

def Part.expr? : Part → Option Expr
  | .expr e => some e
  | .target _ => none

def Part.target? : Part → Option Assignment
  | .expr _ => none
  | .target a => some a

theorem Expr.filterMap_expr?_parts (e : Expr) : e.parts.filterMap Part.expr? = e.nodes := by
  rw [parts, List.filterMap_map]
  exact List.filterMap_some

theorem Expr.filterMap_target?_parts (e : Expr) : e.parts.filterMap Part.target? = [] := by
  simp [parts, List.filterMap_map, Part.target?, List.filterMap_eq_nil_iff]

theorem Block.filterMap_expr?_parts (b : Block) : b.parts.filterMap Part.expr? = b.exprs := by
  induction b with
  | done => rfl
  | declare d rest ih => simp [parts, exprs, Expr.filterMap_expr?_parts, ih]
  | assign a rest ih =>
    have htarget : Part.expr? (.target a) = none := rfl
    simp [parts, exprs, Expr.filterMap_expr?_parts, htarget, ih]
  | loop w body rest ihb ihr => simp [parts, exprs, Expr.filterMap_expr?_parts, ihb, ihr]

theorem Block.filterMap_target?_parts (b : Block) :
    b.parts.filterMap Part.target? = b.assignments := by
  induction b with
  | done => rfl
  | declare d rest ih => simp [parts, assignments, Expr.filterMap_target?_parts, ih]
  | assign a rest ih => simp [parts, assignments, Expr.filterMap_target?_parts, Part.target?, ih]
  | loop w body rest ihb ihr =>
    simp [parts, assignments, Expr.filterMap_target?_parts, ihb, ihr]

theorem Program.filterMap_expr?_parts (p : Program) :
    p.parts.filterMap Part.expr? = p.exprs := by
  rw [parts, List.filterMap_append, Block.filterMap_expr?_parts, Expr.filterMap_expr?_parts, exprs]

theorem Program.filterMap_target?_parts (p : Program) :
    p.parts.filterMap Part.target? = p.body.assignments := by
  rw [parts, List.filterMap_append, Block.filterMap_target?_parts, Expr.filterMap_target?_parts,
    List.append_nil]

/-- The parts are the expressions and the targets of assignments, and no others. -/
theorem Program.forall_mem_parts {p : Program} {P : Part → Prop} :
    (∀ part ∈ p.parts, P part) ↔
      (∀ e ∈ p.exprs, P (.expr e)) ∧ ∀ a ∈ p.body.assignments, P (.target a) := by
  rw [← p.filterMap_expr?_parts, ← p.filterMap_target?_parts]
  simp only [List.mem_filterMap]
  constructor
  · intro h
    constructor
    · rintro e ⟨_ | _, hmem, he⟩
      · exact Option.some.inj he ▸ h _ hmem
      · cases he
    · rintro a ⟨_ | _, hmem, ha⟩
      · cases ha
      · exact Option.some.inj ha ▸ h _ hmem
  · rintro ⟨hexprs, htargets⟩ part hmem
    cases part with
    | expr e => exact hexprs e ⟨_, hmem, rfl⟩
    | target a => exact htargets a ⟨_, hmem, rfl⟩

/-! ## The fault of the code is that of the first part -/

section

variable (t : Target) (ann : Annotations)

theorem Annotations.faultOf_varName (node : NodeId) (name : String) :
    faultOf (ann.varName node name) = ann.varFault? node name := by
  unfold varName varFault?
  cases ann.binding? node <;> rfl

theorem Expr.faultOf_code (e : Expr) : faultOf (e.code t ann) = firstFault ann e.parts := by
  induction e with
  | binary n op l r ihl ihr =>
    rw [code, faultOf_bind fun _ => faultOf_bind_ok, ihl, ihr]
    simp [parts, nodes, Part.fault?]
  | unary n op e ih =>
    rw [code, faultOf_bind_ok, ih]
    simp [parts, nodes, Part.fault?]
  | var n s =>
    rw [code, Annotations.faultOf_varName]
    simp [parts, nodes, Part.fault?]
  | bool | int | hole => rfl

/-- A type that is known has a name in every language. -/
theorem Target.faultOf_declarator {ty : Ty} (h : ty ≠ .unknown) :
    faultOf (t.declarator ty) = none := by
  cases t <;> cases ty <;> first | rfl | exact absurd rfl h

theorem Declaration.faultOf_code {d : Declaration} (h : d.ty ≠ .unknown) :
    faultOf (d.code t ann) = firstFault ann d.init.parts := by
  rw [code, faultOf_bind fun _ => faultOf_bind_ok, t.faultOf_declarator h, Option.or_none,
    Expr.faultOf_code]

theorem Assignment.faultOf_code (a : Assignment) :
    faultOf (a.code t ann) = firstFault ann (a.value.parts ++ [.target a]) := by
  rw [code, faultOf_bind fun _ => faultOf_bind_ok, Annotations.faultOf_varName, Expr.faultOf_code]
  simp [Part.fault?]

theorem Block.faultOf_code (depth : Nat) {b : Block} (h : ∀ d ∈ b.declarations, d.ty ≠ .unknown) :
    faultOf (b.code t ann depth) = firstFault ann b.parts := by
  induction b generalizing depth with
  | done => rfl
  | declare d rest ih =>
    rw [declarations, List.forall_mem_cons] at h
    rw [code, faultOf_bind fun _ => faultOf_bind_ok, Declaration.faultOf_code t ann h.1, ih _ h.2,
      parts, firstFault_append]
  | assign a rest ih =>
    rw [code, faultOf_bind fun _ => faultOf_bind_ok, Assignment.faultOf_code, ih _ h, parts]
    simp [Option.or_assoc]
  | loop w body rest ihb ihr =>
    rw [declarations, List.forall_mem_append] at h
    rw [code, faultOf_bind fun _ => faultOf_bind fun _ => faultOf_bind_ok, Expr.faultOf_code,
      ihb _ h.1, ihr _ h.2, parts, firstFault_append, firstFault_append, Option.or_assoc]

/-- **The fault of a program's code is that of its first part without code**, in every language and
with every width of indentation. -/
theorem Program.faultOf_code {p : Program} (h : ∀ d ∈ p.body.declarations, d.ty ≠ .unknown)
    (indent : Indent) : faultOf (p.code t ann indent) = firstFault ann p.parts := by
  have hlines : faultOf (p.codeLines t ann) = firstFault ann p.parts := by
    rw [codeLines, faultOf_bind fun _ => faultOf_bind_ok, Block.faultOf_code t ann _ h,
      Expr.faultOf_code, parts, firstFault_append]
  rw [← hlines]
  exact faultOf_bind_ok

end

end WhileLang
