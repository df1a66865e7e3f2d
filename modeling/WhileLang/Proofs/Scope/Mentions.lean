import WhileLang.Proofs.Scope.Addresses

/-!
# `WhileLang/Proofs/Scope/Mentions.lean` — the names of a program, in the order of its text

A name that stands in a program either is declared there or is used. Both are listed together here,
in the order in which they are written: the name that a statement declares or assigns to, and then
those in its value. Anything that is written with one name for each name of the source can be
compared with this list place by place.

**What a use means is declared before it, in the same list of statements or in one around it**
(`Block.exists_declared_of_visible`). That is what a language with blocks asks of it as well.
-/

set_option autoImplicit false

namespace WhileLang

/-! ## Before an address -/

/-- `b` comes before `a` in one list of statements, or before the loop of that list that `a` is
in. -/
def Address.Precedes (b a : Address) : Prop :=
  ∃ outer m n inner, b = outer ++ [m] ∧ a = outer ++ n :: inner ∧ m < n

theorem Address.Precedes.within {b a : Address} (h : b.Precedes a) (outer : Address) :
    Address.Precedes (outer ++ b) (outer ++ a) := by
  obtain ⟨mid, m, n, inner, rfl, rfl, hlt⟩ := h
  exact ⟨outer ++ mid, m, n, inner, by rw [List.append_assoc], by rw [List.append_assoc], hlt⟩

namespace Block

variable {b body : Block} {d : Declaration}

theorem exists_declared_of_mem_declaredIn {k : Nat} (h : d ∈ b.declaredIn k) (outer : Address)
    (n : Nat) : ∃ m < k, (outer ++ [n + m], d) ∈ b.declared outer n := by
  induction b generalizing k n with
  | done => cases k <;> simp [declaredIn] at h
  | declare first rest ih =>
    cases k with
    | zero => simp [declaredIn] at h
    | succ k =>
      rcases List.mem_cons.1 h with rfl | h
      · exact ⟨0, Nat.succ_pos k, List.mem_cons_self ..⟩
      · obtain ⟨m, hm, hmem⟩ := ih h (n + 1)
        rw [Nat.add_right_comm] at hmem
        exact ⟨m + 1, Nat.succ_lt_succ hm, List.mem_cons_of_mem _ hmem⟩
  | assign a rest ih =>
    cases k with
    | zero => simp [declaredIn] at h
    | succ k =>
      obtain ⟨m, hm, hmem⟩ := ih h (n + 1)
      rw [Nat.add_right_comm] at hmem
      exact ⟨m + 1, Nat.succ_lt_succ hm, hmem⟩
  | loop w body rest _ ih =>
    cases k with
    | zero => simp [declaredIn] at h
    | succ k =>
      obtain ⟨m, hm, hmem⟩ := ih h (n + 1)
      rw [Nat.add_right_comm] at hmem
      exact ⟨m + 1, Nat.succ_lt_succ hm, List.mem_append_right _ hmem⟩

theorem declared_subset_of_bodyAt? {k : Nat} (h : b.bodyAt? k = some body) (outer : Address)
    (n : Nat) : body.declared (outer ++ [n + k]) 0 ⊆ b.declared outer n := by
  induction b generalizing k n with
  | done => cases k <;> simp [bodyAt?] at h
  | declare first rest ih =>
    cases k with
    | zero => simp [bodyAt?] at h
    | succ k =>
      have hrest := ih h (n + 1)
      rw [Nat.add_right_comm] at hrest
      exact List.subset_cons_of_subset _ hrest
  | assign a rest ih =>
    cases k with
    | zero => simp [bodyAt?] at h
    | succ k =>
      have hrest := ih h (n + 1)
      rwa [Nat.add_right_comm] at hrest
  | loop w inner rest _ ih =>
    cases k with
    | zero =>
      obtain rfl := Option.some.inj h
      exact List.subset_append_left ..
    | succ k =>
      have hrest := ih h (n + 1)
      rw [Nat.add_right_comm] at hrest
      exact List.subset_append_of_subset_right _ hrest

/-- What stands before an address precedes it. -/
theorem exists_declared_of_mem_before {a : Address} {ds : List Declaration} (hds : ds ∈ b.before a)
    (hd : d ∈ ds) (outer : Address) : ∃ c, (outer ++ c, d) ∈ b.declared outer 0 ∧
      Address.Precedes c a := by
  induction a generalizing b outer with
  | nil => simp [before] at hds
  | cons n inner ih =>
    rcases List.mem_append.1 hds with hds | hds
    · cases hbody : b.bodyAt? n with
      | none => simp [hbody] at hds
      | some body =>
        rw [hbody] at hds
        obtain ⟨c, hmem, hc⟩ := ih hds (outer ++ [n])
        have hsub := declared_subset_of_bodyAt? hbody outer 0
        rw [Nat.zero_add] at hsub
        have hall := hsub hmem
        rw [List.append_assoc] at hall
        exact ⟨[n] ++ c, hall, hc.within [n]⟩
    · obtain rfl := List.mem_singleton.1 hds
      obtain ⟨m, hm, hmem⟩ := exists_declared_of_mem_declaredIn hd outer 0
      rw [Nat.zero_add] at hmem
      exact ⟨[m], hmem, [], m, n, inner, rfl, rfl, hm⟩

/-- What a name means has this name, and stands in one of the lists around the address. -/
theorem of_visible_eq_some {a : Address} {x : String} (h : b.visible a x = some d) :
    d.symbol.name = x ∧ ∃ ds ∈ b.before a, d ∈ ds := by
  obtain ⟨ds, hds, hfind⟩ := List.exists_of_findSome?_eq_some h
  exact ⟨by simpa using List.find?_some hfind, ds, hds, List.mem_of_find?_eq_some hfind⟩

/-- **What a name means is declared before it**, in the same list or in one around it. -/
theorem exists_declared_of_visible {a : Address} {x : String} (h : b.visible a x = some d) :
    ∃ c, (c, d) ∈ b.declared [] 0 ∧ Address.Precedes c a := by
  obtain ⟨-, ds, hds, hd⟩ := of_visible_eq_some h
  exact exists_declared_of_mem_before hds hd []

end Block

/-! ## Names in the order of the text -/

/-- A name that stands in a program. -/
inductive Mention where
  | declares (address : Address) (d : Declaration)
  | uses (u : Use)
deriving DecidableEq, Repr

namespace Mention

def declaration? : Mention → Option (Address × Declaration)
  | declares a d => some (a, d)
  | uses _ => none

def use? : Mention → Option Use
  | declares _ _ => none
  | uses u => some u

end Mention

def Expr.mentions (a : Address) (e : Expr) : List Mention := (e.uses a).map .uses

/-- The names in a block, numbered like its uses. -/
def Block.mentions (outer : Address) : Nat → Block → List Mention
  | _, .done => []
  | n, .declare d rest =>
    .declares (outer ++ [n]) d :: (d.init.mentions (outer ++ [n]) ++ rest.mentions outer (n + 1))
  | n, .assign a rest =>
    .uses ⟨outer ++ [n], a.node.id, a.symbol⟩ ::
      (a.value.mentions (outer ++ [n]) ++ rest.mentions outer (n + 1))
  | n, .loop w body rest =>
    w.cond.mentions (outer ++ [n]) ++ (body.mentions (outer ++ [n]) 0 ++
      rest.mentions outer (n + 1))

/-- The names in a program. Those in the result stand after all statements. -/
def Program.mentions (p : Program) : List Mention :=
  p.body.mentions [] 0 ++ p.result.mentions [p.body.ids.length]

/-! ## They are the declarations and the uses -/

@[simp] theorem Expr.filterMap_declaration?_mentions (a : Address) (e : Expr) :
    (e.mentions a).filterMap Mention.declaration? = [] := by
  simp [mentions, Mention.declaration?]

@[simp] theorem Expr.filterMap_use?_mentions (a : Address) (e : Expr) :
    (e.mentions a).filterMap Mention.use? = e.uses a := by
  simp [mentions, Mention.use?, Function.comp_def]

namespace Block

theorem filterMap_declaration?_mentions (outer : Address) (n : Nat) (b : Block) :
    (b.mentions outer n).filterMap Mention.declaration? = b.declared outer n := by
  induction b generalizing outer n with
  | done => rfl
  | declare d rest ih => simp [mentions, declared, Mention.declaration?, ih]
  | assign a rest ih =>
    simp [mentions, declared, List.filterMap_cons, Mention.declaration?, ih]
  | loop w body rest ihb ihr => simp [mentions, declared, ihb, ihr]

theorem perm_filterMap_use?_mentions (outer : Address) (n : Nat) (b : Block) :
    ((b.mentions outer n).filterMap Mention.use?).Perm (b.uses outer n) := by
  induction b generalizing outer n with
  | done => rfl
  | declare d rest ih =>
    simpa [mentions, uses, List.filterMap_cons, Mention.use?] using
      (ih outer (n + 1)).append_left _
  | assign a rest ih =>
    -- the target is written before the value, and is listed among the uses after it
    have hrest := (ih outer (n + 1)).append_left (a.value.uses (outer ++ [n]))
    simpa [mentions, uses, List.filterMap_cons, Mention.use?] using
      (hrest.cons ⟨outer ++ [n], a.node.id, a.symbol⟩).trans List.perm_middle.symm
  | loop w body rest ihb ihr =>
    simpa [mentions, uses] using
      ((ihb (outer ++ [n]) 0).append (ihr outer (n + 1))).append_left _

end Block

namespace Program

/-- The declarations among the names of a program are those of its statements. -/
theorem filterMap_declaration?_mentions (p : Program) :
    p.mentions.filterMap Mention.declaration? = p.body.declared [] 0 := by
  simp [mentions, Block.filterMap_declaration?_mentions]

/-- The other names of a program are its uses, each once. -/
theorem perm_filterMap_use?_mentions (p : Program) :
    (p.mentions.filterMap Mention.use?).Perm p.uses := by
  simpa [mentions, uses] using (p.body.perm_filterMap_use?_mentions [] 0).append_right _

theorem mem_uses_of_mem_mentions {p : Program} {u : Use} (h : .uses u ∈ p.mentions) :
    u ∈ p.uses :=
  p.perm_filterMap_use?_mentions.mem_iff.1 (List.mem_filterMap.2 ⟨_, h, rfl⟩)

theorem mem_declared_of_mem_mentions {p : Program} {a : Address} {d : Declaration}
    (h : .declares a d ∈ p.mentions) : (a, d) ∈ p.body.declared [] 0 :=
  p.filterMap_declaration?_mentions ▸ List.mem_filterMap.2 ⟨_, h, rfl⟩

end Program

/-! ## What they mean -/

/-- The name means this declaration, which is at this address: either it is declared by it, or the
declaration is the one that a use sees. -/
inductive Mention.Means (p : Program) : Mention → Address → Declaration → Prop
  | declares {a : Address} {d : Declaration} (h : (a, d) ∈ p.body.declared [] 0) :
    (declares a d).Means p a d
  | uses {u : Use} {b : Address} {d : Declaration} (h : (b, d) ∈ p.body.declared [] 0)
    (hsees : p.visible u.address u.symbol.name = some d) (hbefore : b.Precedes u.address) :
    (uses u).Means p b d

end WhileLang
