import Mathlib.Data.List.Forall2
import WhileLang.Scope

/-!
# `WhileLang/Proofs/Scope/Frames.lean` — stacks of names

A block-structured language keeps a stack of frames, one for each open block: a name means what the
innermost frame that has it says. The scopes of the checker are such a stack, and so are the
environments of the languages a program is compared with, which differ only in what a name is bound
to. The operations are stated here once, for anything that can be bound.

Two stacks **of the same shape** are compared entry by entry (`Frames.Rel`). The names in them need
not be the same, as long as the relation says which entry of the one a name of the other is about;
then reading and writing a name in the one does to the related entry of the other what it should
(`Rel.read`, `Rel.write`).
-/

set_option autoImplicit false

namespace WhileLang

/-- The frames of the open blocks, innermost first, and in each what was bound last comes first. -/
abbrev Frames (α : Type) := List (List (String × α))

namespace Frames

variable {α β : Type}

/-- What the innermost frame with this name says. -/
def read (fs : Frames α) (x : String) : Option α := fs.findSome? (·.lookup x)

/-- Binds a name in the innermost frame. -/
def bind (x : String) (a : α) : Frames α → Frames α
  | [] => [[(x, a)]]
  | f :: fs => ((x, a) :: f) :: fs

/-- Gives a name of a frame something new to mean, if the frame has it. -/
def update (x : String) (a : α) : List (String × α) → Option (List (String × α))
  | [] => none
  | (y, b) :: f => if y = x then some ((y, a) :: f) else (update x a f).map ((y, b) :: ·)

/-- Gives a name something new to mean in the innermost frame that has it. -/
def write (x : String) (a : α) : Frames α → Option (Frames α)
  | [] => none
  | f :: fs =>
    match update x a f with
    | some f' => some (f' :: fs)
    | none => (write x a fs).map (f :: ·)

def push (fs : Frames α) : Frames α := [] :: fs

def pop (fs : Frames α) : Frames α := fs.tail

def top (fs : Frames α) : List (String × α) := fs.headD []

/-- All entries, from the inside out. -/
def entries (fs : Frames α) : List (String × α) := fs.flatten

/-- The names stay, and what they are bound to changes. -/
def mapVal (g : α → β) (fs : Frames α) : Frames β :=
  List.map (fun f => f.map fun p => (p.1, g p.2)) fs

theorem lookup_eq_find? (f : List (String × α)) (x : String) :
    f.lookup x = (f.find? (·.1 = x)).map (·.2) := by
  induction f with
  | nil => rfl
  | cons p f ih =>
    obtain ⟨y, a⟩ := p
    by_cases h : x = y
    · simp [h]
    · simp [List.lookup_cons, beq_false_of_ne h, Ne.symm h, ih]

theorem read_eq_find? (fs : Frames α) (x : String) :
    fs.read x = (fs.entries.find? (·.1 = x)).map (·.2) := by
  induction fs with
  | nil => rfl
  | cons f fs ih =>
    rw [read, List.findSome?_cons, lookup_eq_find?, entries, List.flatten_cons, List.find?_append]
    cases f.find? (·.1 = x) with
    | none => exact ih
    | some p => rfl

theorem find?_of_read {fs : Frames α} {x : String} {a : α} (h : fs.read x = some a) :
    fs.entries.find? (·.1 = x) = some (x, a) := by
  rw [read_eq_find?, Option.map_eq_some_iff] at h
  obtain ⟨p, hp, rfl⟩ := h
  have hx : p.1 = x := by simpa using List.find?_some hp
  rw [hp, ← hx]

theorem mem_entries_of_read {fs : Frames α} {x : String} {a : α} (h : fs.read x = some a) :
    (x, a) ∈ fs.entries :=
  List.mem_of_find?_eq_some (find?_of_read h)

/-- A name that no frame has is not in the innermost one. -/
theorem lookup_top_of_read {fs : Frames α} {x : String} (h : fs.read x = none) :
    fs.top.lookup x = none := by
  cases fs with
  | nil => rfl
  | cons f fs =>
    rw [read, List.findSome?_eq_none_iff] at h
    exact h f (List.mem_cons_self ..)

/-! ## What is bound, changed -/

theorem lookup_map (g : α → β) (f : List (String × α)) (x : String) :
    (f.map fun p => (p.1, g p.2)).lookup x = (f.lookup x).map g := by
  induction f with
  | nil => rfl
  | cons p f ih =>
    obtain ⟨y, a⟩ := p
    by_cases h : x = y
    · simp [h]
    · simp only [List.map_cons, List.lookup_cons, beq_false_of_ne h, ih]

theorem read_mapVal (g : α → β) (fs : Frames α) (x : String) :
    (fs.mapVal g).read x = (fs.read x).map g := by
  induction fs with
  | nil => rfl
  | cons f fs ih =>
    simp only [read, mapVal, List.map_cons, List.findSome?_cons, lookup_map]
    cases f.lookup x with
    | none => exact ih
    | some a => rfl

theorem bind_mapVal (g : α → β) (fs : Frames α) (x : String) (a : α) :
    (fs.mapVal g).bind x (g a) = (fs.bind x a).mapVal g := by
  cases fs <;> rfl

theorem update_map (g : α → β) (x : String) (a : α) (f : List (String × α)) :
    update x (g a) (f.map fun p => (p.1, g p.2)) =
      (update x a f).map fun f => f.map fun p => (p.1, g p.2) := by
  induction f with
  | nil => rfl
  | cons p f ih =>
    obtain ⟨y, b⟩ := p
    simp only [List.map_cons, update, ih]
    split
    · rfl
    · cases update x a f <;> rfl

theorem write_mapVal (g : α → β) (fs : Frames α) (x : String) (a : α) :
    (fs.mapVal g).write x (g a) = (fs.write x a).map (mapVal g) := by
  induction fs with
  | nil => rfl
  | cons f fs ih =>
    simp only [mapVal, List.map_cons, write, update_map] at ih ⊢
    cases update x a f with
    | some f' => rfl
    | none =>
      rw [Option.map_none, ih]
      cases write x a fs <;> rfl

theorem read_push (fs : Frames α) (x : String) : fs.push.read x = fs.read x := by
  simp [read, push, List.findSome?_cons]

theorem read_bind (fs : Frames α) (x y : String) (a : α) :
    (fs.bind x a).read y = if y = x then some a else fs.read y := by
  by_cases h : y = x
  · cases fs <;> simp [read, bind, h]
  · cases fs <;> simp [read, bind, h, List.findSome?_cons, List.lookup_cons, beq_false_of_ne h]

/-! ## Single frames, compared -/

section

variable {R R' : String × α → String × β → Prop}
variable {f : List (String × α)} {g : List (String × β)}
variable {y : String} {about : String × α → Bool}

theorem forall₂_imp (h : List.Forall₂ R f g) (hR : ∀ p ∈ f, ∀ q, R p q → R' p q) :
    List.Forall₂ R' f g := by
  induction h with
  | nil => exact .nil
  | cons hpq _ ih =>
    exact .cons (hR _ (List.mem_cons_self ..) _ hpq)
      (ih fun p hp => hR p (List.mem_cons_of_mem _ hp))

theorem exists_of_mem_right (h : List.Forall₂ R f g) {q : String × β} (hq : q ∈ g) :
    ∃ p ∈ f, R p q := by
  induction h with
  | nil => cases hq
  | cons hpq _ ih =>
    rcases List.mem_cons.1 hq with rfl | hq
    · exact ⟨_, List.mem_cons_self .., hpq⟩
    · obtain ⟨p, hp, hR⟩ := ih hq
      exact ⟨p, List.mem_cons_of_mem _ hp, hR⟩

theorem find?_of_forall₂ (h : List.Forall₂ R f g)
    (ha : ∀ p q, R p q → about p = decide (q.1 = y)) {p : String × α}
    (hp : f.find? about = some p) : ∃ b, g.find? (·.1 = y) = some (y, b) ∧ R p (y, b) := by
  induction h with
  | nil => simp at hp
  | @cons p' q f g hpq _ ih =>
    have hab := ha _ _ hpq
    by_cases hq : q.1 = y
    · rw [List.find?_cons_of_pos (by rw [hab, decide_eq_true hq])] at hp
      obtain rfl := Option.some.inj hp
      obtain ⟨z, b⟩ := q
      obtain rfl : z = y := hq
      exact ⟨b, List.find?_cons_of_pos (by simp), hpq⟩
    · rw [List.find?_cons_of_neg (by rw [hab, decide_eq_false hq]; simp)] at hp
      obtain ⟨b, hb, hR⟩ := ih hp
      exact ⟨b, by rw [List.find?_cons_of_neg (by simpa using hq)]; exact hb, hR⟩

theorem update_eq_none (h : List.Forall₂ R f g) (b : β)
    (ha : ∀ p q, R p q → about p = decide (q.1 = y)) (hn : f.find? about = none) :
    update y b g = none := by
  induction h with
  | nil => rfl
  | @cons p q f g hpq _ ih =>
    rw [List.find?_eq_none] at hn
    have hq : q.1 ≠ y := by
      have := hn p (List.mem_cons_self ..)
      rwa [ha _ _ hpq, decide_eq_true_eq] at this
    rw [update, if_neg hq, ih (List.find?_eq_none.2 fun p hp => hn p (List.mem_cons_of_mem _ hp))]
    rfl

theorem update_eq_some (h : List.Forall₂ R f g) {b : β}
    (ha : ∀ p q, R p q → about p = decide (q.1 = y)) {p : String × α}
    (hp : f.find? about = some p) (hd : f.Nodup) (hnew : ∀ q, R p q → R' p (y, b))
    (hold : ∀ p' q, p' ≠ p → R p' q → R' p' q) :
    ∃ g', update y b g = some g' ∧ List.Forall₂ R' f g' := by
  induction h with
  | nil => simp at hp
  | @cons p' q f g hpq hf ih =>
    have hab := ha _ _ hpq
    rw [List.nodup_cons] at hd
    by_cases hq : q.1 = y
    · rw [List.find?_cons_of_pos (by rw [hab, decide_eq_true hq])] at hp
      obtain rfl := Option.some.inj hp
      have hrest : List.Forall₂ R' f g :=
        forall₂_imp hf fun p hp q => hold p q fun he => hd.1 (he ▸ hp)
      exact ⟨(q.1, b) :: g, if_pos hq, .cons (hq ▸ hnew _ hpq) hrest⟩
    · rw [List.find?_cons_of_neg (by rw [hab, decide_eq_false hq]; simp)] at hp
      obtain ⟨g', hg', hR'⟩ := ih hp hd.2
      have hne : p' ≠ p := fun he => hd.1 (he ▸ List.mem_of_find?_eq_some hp)
      exact ⟨q :: g', by rw [update, if_neg hq, hg']; rfl, .cons (hold _ _ hne hpq) hR'⟩

end

/-! ## Stacks of the same shape -/

/-- The stacks have the same shape, and their entries are related place by place. -/
def Rel (R : String × α → String × β → Prop) (fs : Frames α) (gs : Frames β) : Prop :=
  List.Forall₂ (List.Forall₂ R) fs gs

namespace Rel

variable {R R' : String × α → String × β → Prop} {fs : Frames α} {gs : Frames β}
variable {y : String} {about : String × α → Bool}

theorem imp (h : Rel R fs gs) (hR : ∀ p ∈ fs.entries, ∀ q, R p q → R' p q) : Rel R' fs gs := by
  induction h with
  | nil => exact .nil
  | cons hf _ ih =>
    simp only [Frames.entries, List.flatten_cons, List.mem_append] at hR
    exact .cons (forall₂_imp hf fun p hp => hR p (.inl hp)) (ih fun p hp => hR p (.inr hp))

theorem push (h : Rel R fs gs) : Rel R fs.push gs.push := .cons .nil h

theorem pop (h : Rel R fs gs) : Rel R fs.pop gs.pop := by
  cases h with
  | nil => exact .nil
  | cons _ h => exact h

theorem bind (h : Rel R fs gs) {p : String × α} {q : String × β} (hpq : R p q) :
    Rel R (fs.bind p.1 p.2) (gs.bind q.1 q.2) := by
  cases h with
  | nil => exact .cons (.cons hpq .nil) .nil
  | cons hf h => exact .cons (.cons hpq hf) h

theorem entries (h : Rel R fs gs) : List.Forall₂ R fs.entries gs.entries := by
  induction h with
  | nil => exact .nil
  | cons hf _ ih => exact List.rel_append hf ih

/-- A name of the second stack is read where the entry is that it is about. -/
theorem read (h : Rel R fs gs) (ha : ∀ p q, R p q → about p = decide (q.1 = y)) {p : String × α}
    (hp : fs.entries.find? about = some p) : ∃ b, gs.read y = some b ∧ R p (y, b) := by
  obtain ⟨b, hb, hR⟩ := find?_of_forall₂ h.entries ha hp
  exact ⟨b, by rw [read_eq_find?, hb]; rfl, hR⟩

/-- To write a name of the second stack is to change the entry it is about, and no other. -/
theorem write (h : Rel R fs gs) {b : β} (ha : ∀ p q, R p q → about p = decide (q.1 = y))
    {p : String × α} (hp : fs.entries.find? about = some p) (hd : fs.entries.Nodup)
    (hnew : ∀ q, R p q → R' p (y, b)) (hold : ∀ p' q, p' ≠ p → R p' q → R' p' q) :
    ∃ gs', gs.write y b = some gs' ∧ Rel R' fs gs' := by
  induction h with
  | nil => simp [Frames.entries] at hp
  | @cons f g fs gs hf hfs ih =>
    rw [Frames.entries, List.flatten_cons, List.nodup_append] at hd
    rw [Frames.entries, List.flatten_cons, List.find?_append] at hp
    -- the entry is in the first frame that has one, and no entry occurs twice, so the frames
    -- further out keep theirs
    cases hfind : f.find? about with
    | some p' =>
      obtain rfl : p' = p := by simpa [hfind] using hp
      obtain ⟨g', hg', hR'⟩ := update_eq_some hf ha hfind hd.1 hnew hold
      have hrest : Rel R' fs gs := Rel.imp hfs fun p hp q =>
        hold p q fun he => hd.2.2 _ (List.mem_of_find?_eq_some hfind) _ hp he.symm
      exact ⟨g' :: gs, by rw [Frames.write, hg'], .cons hR' hrest⟩
    | none =>
      rw [hfind, Option.none_or] at hp
      obtain ⟨gs', hgs', hR'⟩ := ih hp hd.2.1
      have hfirst : List.Forall₂ R' f g := forall₂_imp hf fun p' hp' q =>
        hold p' q fun he => hd.2.2 _ hp' _ (List.mem_of_find?_eq_some hp) he
      exact ⟨g :: gs', by rw [Frames.write, update_eq_none hf b ha hfind, hgs']; rfl,
        .cons hfirst hR'⟩

end Rel

end Frames

theorem ScopeTable.lookup_eq_read (t : ScopeTable) (x : String) :
    t.lookup x = Frames.read t.frames x := rfl

end WhileLang
