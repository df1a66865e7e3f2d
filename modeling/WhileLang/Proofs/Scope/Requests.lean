import WhileLang.Scope

/-!
# `WhileLang/Proofs/Scope/Requests.lean` — asking a table of scopes, again and again

A table of scopes can be asked for anything at any time: to open and close frames, also more of
them than are open, to declare a name, and to look one up. Each request has a reply, and leaves a
table for the next one.

What is asked while a frame is open that was opened for it, and closes no other, is forgotten when
that frame is closed (`Balanced.after_eq`): the frames outside it are spared by every single
request. So **all that is asked later is answered as if it had not been asked** (`Traceless`).
-/

set_option autoImplicit false

namespace WhileLang

/-- What a table of scopes can be asked for. -/
inductive ScopeRequest where
  | push
  | pop
  | bind (symbol : Symbol) (info : DeclInfo)
  | find (symbol : Symbol)
  | lookup (name : String)
deriving DecidableEq, Repr

inductive ScopeAnswer where
  | done
  /-- Whether a declaration was not refused. -/
  | bound (accepted : Bool)
  | meaning (info? : Option DeclInfo)
deriving DecidableEq, Repr

/-- What a request is answered, and what is reported. -/
structure ScopeReply where
  answer : ScopeAnswer
  findings : List Diagnostic
deriving DecidableEq, Repr

namespace ScopeTable

def perform (t : ScopeTable) : ScopeRequest → ScopeReply × ScopeTable
  | .push => (⟨.done, []⟩, t.push)
  | .pop => (⟨.done, []⟩, t.pop)
  | .bind s info =>
    match t.bind s info with
    | .ok t' => (⟨.bound true, []⟩, t')
    | .error fault => (⟨.bound false, [fault.diagnostic]⟩, t)
  | .find s => (⟨.meaning (t.find? s), t.useFaults s⟩, t)
  | .lookup x => (⟨.meaning (t.lookup x), []⟩, t)

/-- The table that is left after the requests. -/
def after (t : ScopeTable) (rs : List ScopeRequest) : ScopeTable :=
  rs.foldl (fun t r => (t.perform r).2) t

/-- The replies to the requests, one for each. -/
def replies (t : ScopeTable) : List ScopeRequest → List ScopeReply
  | [] => []
  | r :: rs => (t.perform r).1 :: (t.perform r).2.replies rs

theorem after_append (t : ScopeTable) (rs rs' : List ScopeRequest) :
    t.after (rs ++ rs') = (t.after rs).after rs' :=
  List.foldl_append

theorem replies_append (t : ScopeTable) (rs rs' : List ScopeRequest) :
    t.replies (rs ++ rs') = t.replies rs ++ (t.after rs).replies rs' := by
  induction rs generalizing t with
  | nil => rfl
  | cons r rs ih => exact congrArg (_ :: ·) (ih _)

theorem length_replies (t : ScopeTable) (rs : List ScopeRequest) :
    (t.replies rs).length = rs.length := by
  induction rs generalizing t with
  | nil => rfl
  | cons r rs ih => exact congrArg (· + 1) (ih _)

theorem drop_replies_append (t : ScopeTable) (rs rs' : List ScopeRequest) :
    (t.replies (rs ++ rs')).drop rs.length = (t.after rs).replies rs' := by
  rw [replies_append, ← length_replies t rs, List.drop_left]

section

variable {t : ScopeTable} {s : Symbol} {info : DeclInfo}

theorem perform_bind_of_isError (he : s.isError = true) :
    t.perform (.bind s info) = (⟨.bound true, []⟩, t) := by
  simp [perform, bind, he]

theorem perform_bind_of_none (he : s.isError = false) (h : t.inner.lookup s.name = none) :
    t.perform (.bind s info) = (⟨.bound true, []⟩, ⟨(s.name, info) :: t.inner, t.outer⟩) := by
  simp [perform, bind, he, h]

theorem perform_bind_of_some (he : s.isError = false) {prior : DeclInfo}
    (h : t.inner.lookup s.name = some prior) : t.perform (.bind s info) =
      (⟨.bound false, [(ScopeFault.redeclared s prior.span).diagnostic]⟩, t) := by
  simp [perform, bind, he, h]

theorem perform_find_of_isError (he : s.isError = true) :
    t.perform (.find s) = (⟨.meaning none, []⟩, t) := by
  simp [perform, find?, useFaults, find, he]

/-- A name is found where it is looked up, and it is reported if it is not. -/
theorem perform_find (he : s.isError = false) : t.perform (.find s) =
    (⟨.meaning (t.lookup s.name), if (t.lookup s.name).isSome then []
      else [(ScopeFault.undeclared s).diagnostic]⟩, t) := by
  cases h : t.lookup s.name <;> simp [perform, find?, useFaults, find, he, h]

/-- What opens no frame and closes none changes nothing but the innermost one. -/
theorem outer_perform {r : ScopeRequest} (hpush : r ≠ .push) (hpop : r ≠ .pop) :
    (t.perform r).2.outer = t.outer := by
  cases r with
  | push => contradiction
  | pop => contradiction
  | find | lookup => rfl
  | bind s info =>
    by_cases he : s.isError = true
    · rw [perform_bind_of_isError he]
    · rw [Bool.not_eq_true] at he
      cases h : t.inner.lookup s.name with
      | none => rw [perform_bind_of_none he h]
      | some prior => rw [perform_bind_of_some he h]

end

end ScopeTable

namespace ScopeRequest

/-! ## What leaves no trace -/

/-- As many frames are closed as are opened, and none that was open before. -/
def Balanced (rs : List ScopeRequest) : Prop :=
  (∀ rs', rs' <+: rs → rs'.count .pop ≤ rs'.count .push) ∧ rs.count .pop = rs.count .push

/-- Whatever is asked later is answered as if `middle` had not been asked, and reports the same. -/
def Traceless (before middle : List ScopeRequest) : Prop :=
  ∀ later, (ScopeTable.empty.replies (before ++ middle ++ later)).drop (before ++ middle).length =
    (ScopeTable.empty.replies (before ++ later)).drop before.length

variable {rs : List ScopeRequest} {r : ScopeRequest}

/-- What leaves the table as it was leaves no trace. -/
theorem traceless_of_after {before middle : List ScopeRequest}
    (h : (ScopeTable.empty.after before).after middle = ScopeTable.empty.after before) :
    Traceless before middle := by
  intro later
  rw [ScopeTable.drop_replies_append, ScopeTable.drop_replies_append, ScopeTable.after_append, h]

/-- No frame is closed that was not opened since, other than `count` of those before. -/
def Spares (count : Nat) (rs : List ScopeRequest) : Prop :=
  ∀ rs', rs' <+: rs → rs'.count .pop ≤ count + rs'.count .push

theorem count_push_cons (rs : List ScopeRequest) :
    (.push :: rs : List ScopeRequest).count .push = rs.count .push + 1 ∧
      (.push :: rs : List ScopeRequest).count .pop = rs.count .pop :=
  ⟨List.count_cons_self, List.count_cons_of_ne (by simp)⟩

theorem count_pop_cons (rs : List ScopeRequest) :
    (.pop :: rs : List ScopeRequest).count .push = rs.count .push ∧
      (.pop :: rs : List ScopeRequest).count .pop = rs.count .pop + 1 :=
  ⟨List.count_cons_of_ne (by simp), List.count_cons_self⟩

theorem count_other_cons (hpush : r ≠ .push) (hpop : r ≠ .pop) (rs : List ScopeRequest) :
    (r :: rs).count .push = rs.count .push ∧ (r :: rs).count .pop = rs.count .pop :=
  ⟨List.count_cons_of_ne hpush, List.count_cons_of_ne hpop⟩

namespace Spares

variable {count : Nat}

theorem cons_le (h : Spares count (r :: rs)) {rs' : List ScopeRequest} (hrs : rs' <+: rs) :
    (r :: rs').count .pop ≤ count + (r :: rs').count .push :=
  h _ (List.cons_prefix_cons.2 ⟨rfl, hrs⟩)

theorem push (h : Spares count (.push :: rs)) : Spares (count + 1) rs := by
  intro rs' hrs
  have hle := h.cons_le hrs
  obtain ⟨hpush, hpop⟩ := count_push_cons rs'
  omega

/-- To close a frame is to close one of those that need not be spared. -/
theorem pop (h : Spares count (.pop :: rs)) : ∃ count', count = count' + 1 ∧ Spares count' rs := by
  have hle := h.cons_le (List.nil_prefix ..)
  obtain ⟨hpush, hpop⟩ := count_pop_cons []
  rw [List.count_nil] at hpush hpop
  refine ⟨count - 1, by omega, fun rs' hrs => ?_⟩
  have hle := h.cons_le hrs
  obtain ⟨hpush, hpop⟩ := count_pop_cons rs'
  omega

theorem other (hpush : r ≠ .push) (hpop : r ≠ .pop) (h : Spares count (r :: rs)) :
    Spares count rs := by
  intro rs' hrs
  have hle := h.cons_le hrs
  obtain ⟨hpush, hpop⟩ := count_other_cons hpush hpop rs'
  omega

/-- The frames that are spared stay as they were; inside them there are as many more as were opened
and not closed. -/
theorem exists_after (fs : List Frame) (f : Frame) (gs : List Frame) (h : Spares gs.length rs) :
    ∃ f' gs', ScopeTable.after ⟨f, gs ++ fs⟩ rs = ⟨f', gs' ++ fs⟩ ∧
      gs'.length + rs.count .pop = gs.length + rs.count .push := by
  induction rs generalizing f gs with
  | nil => exact ⟨f, gs, rfl, rfl⟩
  | cons r rs ih =>
    by_cases hpush : r = .push
    · subst hpush
      obtain ⟨f', gs', heq, hlen⟩ := ih [] (f :: gs) h.push
      obtain ⟨hpush, hpop⟩ := count_push_cons rs
      rw [List.length_cons] at hlen
      exact ⟨f', gs', heq, by omega⟩
    · by_cases hpop : r = .pop
      · subst hpop
        obtain ⟨count, hcount, hrest⟩ := h.pop
        cases gs with
        | nil => cases hcount
        | cons g gs =>
          obtain rfl := Nat.succ.inj hcount
          obtain ⟨f', gs', heq, hlen⟩ := ih g gs hrest
          obtain ⟨hpush, hpop⟩ := count_pop_cons rs
          rw [List.length_cons]
          exact ⟨f', gs', heq, by omega⟩
      · -- what else can be asked changes the innermost frame only
        have htable : (ScopeTable.perform ⟨f, gs ++ fs⟩ r).2 = ⟨_, gs ++ fs⟩ :=
          congrArg (ScopeTable.mk _) (ScopeTable.outer_perform hpush hpop)
        obtain ⟨f', gs', heq, hlen⟩ := ih _ gs (h.other hpush hpop)
        obtain ⟨hpush, hpop⟩ := count_other_cons hpush hpop rs
        refine ⟨f', gs', ?_, by omega⟩
        rw [← heq, ← htable]
        rfl

end Spares

/-! ## Requests that are balanced -/

theorem balanced_nil : Balanced [] :=
  ⟨fun _ h => List.prefix_nil.1 h ▸ Nat.le_refl _, rfl⟩

/-- What opens no frame and closes none can be asked before. -/
theorem Balanced.cons (hpush : r ≠ .push) (hpop : r ≠ .pop) (h : Balanced rs) :
    Balanced (r :: rs) := by
  refine ⟨fun rs' hrs => ?_, ?_⟩
  · rcases List.prefix_cons_iff.1 hrs with rfl | ⟨tail, rfl, htail⟩
    · exact Nat.le_refl _
    · rw [(count_other_cons hpush hpop tail).1, (count_other_cons hpush hpop tail).2]
      exact h.1 tail htail
  · rw [(count_other_cons hpush hpop rs).1, (count_other_cons hpush hpop rs).2]
    exact h.2

theorem Balanced.append {rs' : List ScopeRequest} (h : Balanced rs) (h' : Balanced rs') :
    Balanced (rs ++ rs') := by
  refine ⟨fun front hfront => ?_, ?_⟩
  · rcases List.prefix_or_prefix_of_prefix hfront (List.prefix_append rs rs') with hle | ⟨tail, rfl⟩
    · exact h.1 front hle
    · have htail := h'.1 tail ((List.prefix_append_right_inj rs).1 hfront)
      have hrs := h.2
      rw [List.count_append, List.count_append]
      omega
  · rw [List.count_append, List.count_append, h.2, h'.2]

/-- To open a frame before and to close it again leaves the balance. -/
theorem Balanced.enclose (h : Balanced rs) : Balanced (.push :: rs ++ [.pop]) := by
  have hwhole : (.push :: rs ++ [.pop] : List ScopeRequest).count .pop =
      (.push :: rs ++ [.pop] : List ScopeRequest).count .push := by
    rw [List.count_append, List.count_append, (count_push_cons rs).1, (count_push_cons rs).2, h.2]
    rfl
  refine ⟨fun front hfront => ?_, hwhole⟩
  rcases List.prefix_concat_iff.1 hfront with rfl | hfront
  · exact Nat.le_of_eq hwhole
  · rcases List.prefix_cons_iff.1 hfront with rfl | ⟨tail, rfl, htail⟩
    · exact Nat.le_refl _
    · have hle := h.1 tail htail
      rw [(count_push_cons tail).1, (count_push_cons tail).2]
      omega

/-- What is done in a frame of its own is gone when that is closed. -/
theorem Balanced.after_eq (h : Balanced rs) (t : ScopeTable) :
    t.after (.push :: rs ++ [.pop]) = t := by
  have hspares : Spares ([] : List Frame).length rs := by
    intro rs' hrs
    rw [List.length_nil, Nat.zero_add]
    exact h.1 rs' hrs
  obtain ⟨f, gs, heq, hlen⟩ := hspares.exists_after t.frames [] []
  have hnil : gs = [] := by
    apply List.eq_nil_of_length_eq_zero
    have hcount := h.2
    rw [List.length_nil] at hlen
    omega
  subst hnil
  have hpush : t.after (.push :: rs) = ⟨f, t.frames⟩ := heq
  rw [ScopeTable.after_append, hpush]
  rfl

end ScopeRequest

end WhileLang
