import Mathlib.Data.List.Nodup
import WhileLang.Tree.Basic

/-!
# `WhileLang/Proofs/Tree/Numbers.lean` — the numbers of a tree, in the order they were given

What later phases know of a tree is kept in tables under the numbers of its nodes, so everything
that is said about those tables rests on one fact about the tree: **no number occurs twice**. A
counter hands the numbers out one after the other, and a counter of 32 bits repeats itself only
after 2³² of them.

This file lists the numbers of a tree in the order in which the nodes are finished, operands
before operators and what a statement contains before the statement, and says what it means that
such a list was handed out by a counter (`Numbered`).
-/

set_option autoImplicit false

namespace WhileLang

/-! ## Lists handed out by a counter -/

/-- What a counter that stands at `first` hands out when it is asked `count` times. -/
def consecutive (first : UInt32) : Nat → List UInt32
  | 0 => []
  | count + 1 => first :: consecutive (first + 1) count

/-- The numbers were handed out, in this order, by a counter that stood at `first`. -/
def Numbered (first : UInt32) (numbers : List UInt32) : Prop :=
  numbers = consecutive first numbers.length

/-- Where a counter stands that has handed out `numbers`. -/
def afterNumbers (first : UInt32) (numbers : List UInt32) : UInt32 :=
  first + .ofNat numbers.length

@[simp] theorem afterNumbers_nil (first : UInt32) : afterNumbers first [] = first := by
  simp [afterNumbers]

theorem afterNumbers_singleton (first n : UInt32) : afterNumbers first [n] = first + 1 := by
  simp [afterNumbers]

theorem afterNumbers_append (first : UInt32) (as bs : List UInt32) :
    afterNumbers (afterNumbers first as) bs = afterNumbers first (as ++ bs) := by
  simp [afterNumbers, UInt32.add_assoc]

/-- A counter that started at zero stands at the number of numbers it handed out. -/
theorem toNat_afterNumbers {numbers : List UInt32} (hl : numbers.length < 4294967296) :
    (afterNumbers 0 numbers).toNat = numbers.length := by
  rw [afterNumbers, UInt32.zero_add]
  exact UInt32.toNat_ofNat_of_lt' hl

@[simp] theorem length_consecutive (first : UInt32) (count : Nat) :
    (consecutive first count).length = count := by
  induction count generalizing first with
  | zero => rfl
  | succ count ih => simp [consecutive, ih]

theorem consecutive_add (first : UInt32) (j k : Nat) :
    consecutive first (j + k) = consecutive first j ++ consecutive (first + .ofNat j) k := by
  induction j generalizing first with
  | zero => simp [consecutive]
  | succ j ih =>
    rw [Nat.succ_add, consecutive, ih, consecutive, List.cons_append, UInt32.ofNat_add,
      UInt32.add_assoc, UInt32.add_comm 1]
    rfl

/-- The number at a place of the list, before it was reduced to 32 bits. -/
theorem getElem?_consecutive (first : UInt32) {count i : Nat} (h : i < count) :
    (consecutive first count)[i]? = some (first + .ofNat i) := by
  induction count generalizing first i with
  | zero => exact absurd h (Nat.not_lt_zero i)
  | succ count ih =>
    cases i with
    | zero => simp [consecutive]
    | succ i =>
      rw [consecutive, List.getElem?_cons_succ, ih (first + 1) (Nat.lt_of_succ_lt_succ h),
        UInt32.ofNat_add, UInt32.add_assoc, UInt32.add_comm (.ofNat i)]
      rfl

theorem consecutive_eq_map (first : UInt32) (count : Nat) :
    consecutive first count = (List.range count).map fun i => first + .ofNat i := by
  apply List.ext_getElem?
  intro i
  rw [List.getElem?_map]
  by_cases h : i < count
  · rw [getElem?_consecutive first h, List.getElem?_range h, Option.map_some]
  · rw [List.getElem?_eq_none (by simpa using h), List.getElem?_eq_none (by simpa using h),
      Option.map_none]

/-- A counter of 32 bits repeats itself no sooner than after 2³² numbers. -/
theorem nodup_consecutive (first : UInt32) {count : Nat} (h : count ≤ 4294967296) :
    (consecutive first count).Nodup := by
  rw [List.nodup_iff_getElem?_ne_getElem?]
  intro i j hij hj
  rw [length_consecutive] at hj
  rw [getElem?_consecutive first (Nat.lt_trans hij hj), getElem?_consecutive first hj]
  intro he
  have he : (UInt32.ofNat i).toNat = (UInt32.ofNat j).toNat :=
    congrArg UInt32.toNat ((UInt32.add_right_inj first).1 (Option.some.inj he))
  rw [UInt32.toNat_ofNat', UInt32.toNat_ofNat', Nat.mod_eq_of_lt (by omega),
    Nat.mod_eq_of_lt (by omega)] at he
  omega

namespace Numbered

theorem nil (first : UInt32) : Numbered first [] := rfl

theorem singleton (first : UInt32) : Numbered first [first] := rfl

theorem append {first : UInt32} {as bs : List UInt32} (ha : Numbered first as)
    (hb : Numbered (afterNumbers first as) bs) : Numbered first (as ++ bs) := by
  unfold Numbered at *
  rw [List.length_append, consecutive_add, ← ha]
  exact congrArg (as ++ ·) hb

theorem nodup {first : UInt32} {numbers : List UInt32} (h : Numbered first numbers)
    (hl : numbers.length ≤ 4294967296) : numbers.Nodup :=
  h ▸ nodup_consecutive first hl

/-- A counter that starts at zero hands out the places of its numbers. -/
theorem eq_map {numbers : List UInt32} (h : Numbered 0 numbers) :
    numbers = (List.range numbers.length).map .ofNat := by
  have hplaces := consecutive_eq_map 0 numbers.length
  rw [← h] at hplaces
  simpa using hplaces

theorem map_toNat {numbers : List UInt32} (h : Numbered 0 numbers)
    (hl : numbers.length ≤ 4294967296) :
    numbers.map (·.toNat) = List.range numbers.length := by
  have hplaces := congrArg (List.map UInt32.toNat) h.eq_map
  rw [List.map_map] at hplaces
  refine hplaces.trans ((List.map_congr_left fun i hi => ?_).trans (List.map_id _))
  have hlt : i < 4294967296 := Nat.lt_of_lt_of_le (List.mem_range.1 hi) hl
  exact UInt32.toNat_ofNat_of_lt' hlt

/-- A counter hands out the same numbers again. -/
theorem eq_of_length_eq {first : UInt32} {as bs : List UInt32} (ha : Numbered first as)
    (hb : Numbered first bs) (h : as.length = bs.length) : as = bs := by
  rw [ha, hb, h]

end Numbered

/-! ## The numbers of a tree -/

namespace Expr

def numbers : Expr → List UInt32
  | .binary n _ l r => l.numbers ++ r.numbers ++ [n.id.index]
  | .unary n _ e => e.numbers ++ [n.id.index]
  | .bool n _ | .int n _ | .var n _ | .hole n => [n.id.index]

def holes : Expr → Nat
  | .binary _ _ l r => l.holes + r.holes
  | .unary _ _ e => e.holes
  | .bool _ _ | .int _ _ | .var _ _ => 0
  | .hole _ => 1

end Expr

namespace Block

/-- The numbers of the nodes of a block, those in a statement before that of the statement. -/
def numbers : Block → List UInt32
  | .done => []
  | .declare d rest => d.init.numbers ++ [d.node.id.index] ++ rest.numbers
  | .assign a rest => a.value.numbers ++ [a.node.id.index] ++ rest.numbers
  | .loop w body rest => w.cond.numbers ++ body.numbers ++ [w.node.id.index] ++ rest.numbers

/-- The numbers of the declarations of a block, loop bodies included, in source order. -/
def declNumbers : Block → List UInt32
  | .done => []
  | .declare d rest => d.decl.index :: rest.declNumbers
  | .assign _ rest => rest.declNumbers
  | .loop _ body rest => body.declNumbers ++ rest.declNumbers

/-- Every declaration is a node. -/
theorem declNumbers_eq_map (b : Block) : b.declNumbers = b.declarations.map (·.decl.index) := by
  induction b with
  | done => rfl
  | declare d rest ih => simp [declNumbers, declarations, ih]
  | assign a rest ih => exact ih
  | loop w body rest ihb ihr => simp [declNumbers, declarations, ihb, ihr]

theorem length_declNumbers_le (b : Block) : b.declNumbers.length ≤ b.numbers.length := by
  induction b with
  | done => exact Nat.le_refl _
  | declare d rest ih =>
    simp only [numbers, declNumbers, List.length_append, List.length_cons]
    omega
  | assign a rest ih =>
    simp only [numbers, declNumbers, List.length_append]
    omega
  | loop w body rest ihb ihr =>
    simp only [numbers, declNumbers, List.length_append]
    omega

def holes : Block → Nat
  | .done => 0
  | .declare d rest => d.init.holes + rest.holes
  | .assign a rest => a.value.holes + rest.holes
  | .loop w body rest => w.cond.holes + body.holes + rest.holes

end Block

/-- The numbers of the nodes of a program, those of its result last. -/
def Program.numbers (p : Program) : List UInt32 :=
  p.body.numbers ++ p.result.numbers

/-- A program has no more declarations than nodes. -/
theorem Program.length_declNumbers_le (p : Program) :
    p.body.declNumbers.length ≤ p.numbers.length := by
  rw [numbers, List.length_append]
  exact Nat.le_add_right_of_le p.body.length_declNumbers_le

def Program.holes (p : Program) : Nat :=
  p.body.holes + p.result.holes

end WhileLang
