import WhileLang.Compilation
import WhileLang.Proofs.Typing.Unplaced

/-!
# `WhileLang/Proofs/Compilation/Unplaced.lean` — outputs do not show places

A program is run and written out by its numbers and the tables of the checker. **An unplaced program
with tables that agree has the same value and the same code**, or fails in the same way, whether or
not the checker has found faults in it.
-/

set_option autoImplicit false

namespace WhileLang

variable {a a' : Annotations}

namespace Annotations.Agree

theorem binding? (h : a.Agree a') (n : NodeId) : a'.binding? n = a.binding? n :=
  congrArg (·[n.index]?) h.bindings

theorem resolve (h : a.Agree a') (n : NodeId) (x : String) : a'.resolve n x = a.resolve n x := by
  rw [Annotations.resolve, h.binding?, Annotations.resolve]

theorem varName (h : a.Agree a') (n : NodeId) (x : String) : a'.varName n x = a.varName n x := by
  rw [Annotations.varName, h.binding?, Annotations.varName]

theorem tyOf (h : a.Agree a') (e : Expr) : a'.tyOf e.unplaced = a.tyOf e := by
  rw [Annotations.tyOf, h.types, e.id_unplaced, Annotations.tyOf]

end Annotations.Agree

/-! ## Values -/

theorem Expr.eval_unplaced (h : a.Agree a') (store : Store) (e : Expr) :
    e.unplaced.eval a' store = e.eval a store := by
  induction e with
  | binary n op l r ihl ihr => rw [unplaced, eval, ihl, ihr, eval]
  | unary n op e ih => rw [unplaced, eval, ih, eval]
  | var n s =>
    have hd : a'.resolve n.unplaced.id s.unplaced.name = a.resolve n.id s.name :=
      h.resolve n.id s.name
    rw [unplaced, eval, hd, eval]
    rfl
  | bool n b | int n v | hole n => rfl

theorem Expr.holds_unplaced (h : a.Agree a') (store : Store) (e : Expr) :
    e.unplaced.holds a' store = e.holds a store := by
  rw [holds, eval_unplaced h, holds]

theorem Block.run_unplaced (h : a.Agree a') (bound : Nat) (b : Block) :
    b.unplaced.run a' bound = b.run a bound := by
  induction b with
  | done => rfl
  | declare d rest ih =>
    funext store
    simp only [unplaced, run, Declaration.unplaced, Expr.eval_unplaced h, ih]
  | assign s rest ih =>
    have hd : a'.resolve s.node.unplaced.id s.symbol.unplaced.name =
        a.resolve s.node.id s.symbol.name := h.resolve s.node.id s.symbol.name
    funext store
    simp only [unplaced, run, Assignment.unplaced, Expr.eval_unplaced h, hd, ih]
  | loop w body rest ihb ihr =>
    funext store
    simp only [unplaced, run, LoopHead.unplaced, Expr.holds_unplaced h, ihb, ihr]

theorem Program.eval_unplaced (h : a.Agree a') (p : Program) (bound : Nat) :
    p.unplaced.eval a' bound = p.eval a bound := by
  simp only [unplaced, eval, Block.run_unplaced h, Expr.eval_unplaced h]

/-! ## Code -/

theorem Expr.code_unplaced (h : a.Agree a') (t : Target) (e : Expr) :
    e.unplaced.code t a' = e.code t a := by
  induction e with
  | binary n op l r ihl ihr => rw [unplaced, code, ihl, ihr, code]
  | unary n op e ih => rw [unplaced, code, ih, code]
  | var n s => exact h.varName n.id s.name
  | bool n b | int n v | hole n => rfl

theorem Block.code_unplaced (h : a.Agree a') (t : Target) (depth : Nat) (b : Block) :
    b.unplaced.code t a' depth = b.code t a depth := by
  induction b generalizing depth with
  | done => rfl
  | declare d rest ih =>
    have hd : d.unplaced.code t a' = d.code t a := by
      rw [Declaration.code, Declaration.unplaced, Expr.code_unplaced h, Declaration.code]
      rfl
    rw [unplaced, code, hd, ih, code]
  | assign s rest ih =>
    have hs : s.unplaced.code t a' = s.code t a := by
      have hname : a'.varName s.node.unplaced.id s.symbol.unplaced.name =
          a.varName s.node.id s.symbol.name := h.varName s.node.id s.symbol.name
      rw [Assignment.code, Assignment.unplaced, Expr.code_unplaced h, hname, Assignment.code]
    rw [unplaced, code, hs, ih, code]
  | loop w body rest ihb ihr =>
    have hbegin : t.bodyBegin (depth + 1) body.unplaced = t.bodyBegin (depth + 1) body := by
      rw [Target.bodyBegin, isEmpty_unplaced, Target.bodyBegin]
    rw [unplaced, code, LoopHead.unplaced, Expr.code_unplaced h, ihb, ihr, hbegin, code]

theorem Program.emit_unplaced (h : a.Agree a') (p : Program) (form : OutputForm)
    (indent : Indent) : p.unplaced.emit form a' indent = p.emit form a indent := by
  cases form with
  | canonical => exact congrArg Except.ok (p.text_unplaced indent)
  | target t =>
    have hlines : p.unplaced.codeLines t a' = p.codeLines t a := by
      rw [codeLines, unplaced, Block.code_unplaced h, Expr.code_unplaced h, h.tyOf, codeLines]
    show p.unplaced.code t a' indent = p.code t a indent
    rw [code, hlines, code]

/-! ## Programs that are equal up to places -/

section

variable {p p' : Program} (h : p.unplaced = p'.unplaced)

include h

theorem Program.agree_annotations_of_eq : p.annotations.Agree p'.annotations := by
  have hp := p.agree_annotations
  rw [h] at hp
  exact hp.trans p'.agree_annotations.symm

theorem Program.eval_of_unplaced_eq (ha : a.Agree a') (bound : Nat) :
    p'.eval a' bound = p.eval a bound := by
  rw [← eval_unplaced (.refl a'), ← h, eval_unplaced ha]

theorem Program.emit_of_unplaced_eq (ha : a.Agree a') (form : OutputForm) (indent : Indent) :
    p'.emit form a' indent = p.emit form a indent := by
  rw [← emit_unplaced (.refl a'), ← h, emit_unplaced ha]

theorem Program.text_of_unplaced_eq (indent : Indent) : p'.text indent = p.text indent := by
  rw [← text_unplaced, ← h, text_unplaced]

theorem Program.faults_of_unplaced_eq :
    p'.faults.map Diagnostic.unplaced = p.faults.map Diagnostic.unplaced := by
  rw [← faults_unplaced, ← h, faults_unplaced]

end

end WhileLang
