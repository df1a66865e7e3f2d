import Mathlib.Data.List.Induction
import WhileLang.Proofs.Scope.Requests

/-!
# `WhileLang/Proofs/Scope/History.lean` — what a table answers, from what was asked before

What a table of scopes answers is told here by **the history of the requests alone**, without
frames. A declaration counts as long as there are, from then on, never fewer frames open than there
were. Of the declarations of a name that count, those made with the most frames open hide the
others, and the first of these is what the name means (`IsMeaning`).

The frames of the table are a record of the history (`Records`). Every request keeps them so,
whatever was asked before, and the theorem on the whole (`ScopeTable.firstWins_after`) reads the
answers off the record.
-/

set_option autoImplicit false

namespace WhileLang

namespace ScopeRequest

/-! ## What the history says -/

def depthStep (d : Nat) : ScopeRequest → Nat
  | .push => d + 1
  | .pop => d - 1
  | .bind _ _ | .find _ | .lookup _ => d

/-- The number of frames that are open after the requests, the outermost one apart. That cannot be
closed, so to close it changes nothing. -/
def depth (rs : List ScopeRequest) : Nat :=
  rs.foldl depthStep 0

/-- Request `i` declares the name in a frame with `d` others around it, and from then on there were
never fewer frames open: this one is still open. -/
structure BindsAt (rs : List ScopeRequest) (i d : Nat) (x : String) (info : DeclInfo) : Prop where
  request : ∃ s, rs[i]? = some (.bind s info) ∧ s.name = x ∧ s.isError = false
  depth_eq : depth (rs.take i) = d
  stays : ∀ j, i ≤ j → d ≤ depth (rs.take j)

/-- The first declaration of the name in the open frame with `d` others around it. -/
def FirstAt (rs : List ScopeRequest) (d : Nat) (x : String) (info : DeclInfo) : Prop :=
  ∃ i, BindsAt rs i d x info ∧ ∀ i' info', BindsAt rs i' d x info' → i ≤ i'

/-- What a name means after the requests: what was said where it was first declared, in the
innermost open frame in which it was declared at all. -/
def IsMeaning (rs : List ScopeRequest) (x : String) : Option DeclInfo → Prop
  | some info => ∃ i d, BindsAt rs i d x info ∧
      ∀ i' d' info', BindsAt rs i' d' x info' → d' < d ∨ d' = d ∧ i ≤ i'
  | none => ∀ i d info, ¬BindsAt rs i d x info

variable {rs : List ScopeRequest} {r : ScopeRequest} {i d : Nat} {x : String} {info : DeclInfo}

theorem depth_append_singleton (rs : List ScopeRequest) (r : ScopeRequest) :
    depth (rs ++ [r]) = depthStep (depth rs) r :=
  List.foldl_append

theorem BindsAt.lt_length (h : BindsAt rs i d x info) : i < rs.length := by
  obtain ⟨s, hs, -⟩ := h.request
  exact (List.getElem?_eq_some_iff.1 hs).1

theorem BindsAt.le_depth (h : BindsAt rs i d x info) : d ≤ depth rs := by
  have hle := h.stays rs.length (Nat.le_of_lt h.lt_length)
  rwa [List.take_length] at hle

/-- One request later, what counted still counts if its frame was not closed. -/
theorem bindsAt_append_of_lt (hi : i < rs.length) :
    BindsAt (rs ++ [r]) i d x info ↔ BindsAt rs i d x info ∧ d ≤ depth (rs ++ [r]) := by
  have hget : (rs ++ [r])[i]? = rs[i]? := List.getElem?_append_left hi
  have htake {j : Nat} (hj : j ≤ rs.length) : (rs ++ [r]).take j = rs.take j :=
    List.take_append_of_le_length hj
  constructor
  · intro h
    refine ⟨⟨?_, ?_, fun j hj => ?_⟩, h.le_depth⟩
    · rw [← hget]
      exact h.request
    · rw [← htake (Nat.le_of_lt hi)]
      exact h.depth_eq
    · -- behind its end the history is what it was at its end
      by_cases hlen : j ≤ rs.length
      · rw [← htake hlen]
        exact h.stays j hj
      · rw [List.take_of_length_le (Nat.le_of_not_le hlen), ← List.take_length (l := rs),
          ← htake (Nat.le_refl _)]
        exact h.stays rs.length (Nat.le_of_lt hi)
  · rintro ⟨h, hd⟩
    refine ⟨?_, ?_, fun j hj => ?_⟩
    · rw [hget]
      exact h.request
    · rw [htake (Nat.le_of_lt hi)]
      exact h.depth_eq
    · by_cases hlen : j ≤ rs.length
      · rw [htake hlen]
        exact h.stays j hj
      · rw [List.take_of_length_le (by simpa using Nat.succ_le_of_lt (Nat.lt_of_not_le hlen))]
        exact hd

/-- The last request counts if it is a declaration. -/
theorem bindsAt_append_length : BindsAt (rs ++ [r]) rs.length d x info ↔
    d = depth rs ∧ ∃ s, r = .bind s info ∧ s.name = x ∧ s.isError = false := by
  have hget : (rs ++ [r])[rs.length]? = some r := List.getElem?_concat_length
  have htake : (rs ++ [r]).take rs.length = rs := List.take_left
  constructor
  · intro h
    obtain ⟨s, hs, hx, he⟩ := h.request
    rw [hget, Option.some.injEq] at hs
    exact ⟨by rw [← h.depth_eq, htake], s, hs, hx, he⟩
  · rintro ⟨rfl, s, rfl, hx, he⟩
    refine ⟨⟨s, hget, hx, he⟩, by rw [htake], fun j hj => ?_⟩
    apply Nat.le_of_eq
    rcases Nat.eq_or_lt_of_le hj with rfl | hlt
    · rw [htake]
    · rw [List.take_of_length_le (by simpa using Nat.succ_le_of_lt hlt)]
      exact (depth_append_singleton rs (.bind s info)).symm

/-- What counts after one more request: what counted before, as far as its frame is open, and the
request itself if it is a declaration. -/
theorem bindsAt_append : BindsAt (rs ++ [r]) i d x info ↔
    BindsAt rs i d x info ∧ d ≤ depth (rs ++ [r]) ∨
      i = rs.length ∧ d = depth rs ∧ ∃ s, r = .bind s info ∧ s.name = x ∧ s.isError = false := by
  constructor
  · intro h
    have hlt := h.lt_length
    rw [List.length_append, List.length_singleton] at hlt
    rcases Nat.lt_or_eq_of_le (Nat.le_of_lt_succ hlt) with hi | rfl
    · exact .inl ((bindsAt_append_of_lt hi).1 h)
    · exact .inr ⟨rfl, bindsAt_append_length.1 h⟩
  · rintro (⟨h, hd⟩ | ⟨rfl, h⟩)
    · exact (bindsAt_append_of_lt h.lt_length).2 ⟨h, hd⟩
    · exact bindsAt_append_length.2 h

/-- Where a name is declared at all, it is declared first. -/
theorem BindsAt.exists_firstAt (h : BindsAt rs i d x info) : ∃ info', FirstAt rs d x info' := by
  induction i using Nat.strongRecOn generalizing info with
  | ind i ih =>
    by_cases hearlier : ∃ i' info', i' < i ∧ BindsAt rs i' d x info'
    · obtain ⟨i', info', hlt, h'⟩ := hearlier
      exact ih i' hlt h'
    · refine ⟨info, i, h, fun i' info' h' => ?_⟩
      apply Nat.le_of_not_lt
      intro hlt
      exact hearlier ⟨i', info', hlt, h'⟩

theorem FirstAt.congr {rs' : List ScopeRequest}
    (h : ∀ i info, BindsAt rs i d x info ↔ BindsAt rs' i d x info) :
    FirstAt rs d x info ↔ FirstAt rs' d x info := by
  simp only [FirstAt, h]

/-! ## Frames as a record of the history -/

/-- Every frame says of each name what was said of it first, there. -/
def Records (rs : List ScopeRequest) : List Frame → Prop
  | [] => True
  | f :: fs => (∀ x info, f.lookup x = some info ↔ FirstAt rs fs.length x info) ∧ Records rs fs

/-- The frames are those that the history has left open, and they are a record of it. -/
structure Tracks (rs : List ScopeRequest) (t : ScopeTable) : Prop where
  length_outer : t.outer.length = depth rs
  records : Records rs t.frames

/-- Frames for which nothing has changed are a record still. -/
theorem Records.congr {rs' : List ScopeRequest} {fs : List Frame} (h : Records rs fs)
    (hf : ∀ d < fs.length, ∀ x info, FirstAt rs d x info ↔ FirstAt rs' d x info) :
    Records rs' fs := by
  induction fs with
  | nil => trivial
  | cons f fs ih =>
    refine ⟨fun x info => ?_, ih h.2 fun d hd => hf d (Nat.lt_succ_of_lt hd)⟩
    rw [h.1 x info]
    exact hf _ (Nat.lt_succ_self _) x info

/-- A frame that does not have the name has no declaration of it. -/
theorem Records.not_bindsAt {f : Frame} {fs : List Frame} (h : Records rs (f :: fs))
    (hx : f.lookup x = none) (i : Nat) (info : DeclInfo) : ¬BindsAt rs i fs.length x info := by
  intro hb
  obtain ⟨info', hfirst⟩ := hb.exists_firstAt
  rw [← h.1 x info', hx] at hfirst
  cases hfirst

/-- Looking from the inside out finds the first declaration in the innermost frame that has one. -/
theorem Records.findSome? {fs : List Frame} (h : Records rs fs) (x : String) :
    match fs.findSome? (·.lookup x) with
    | some info => ∃ d, FirstAt rs d x info ∧
        ∀ d' < fs.length, d < d' → ∀ i info', ¬BindsAt rs i d' x info'
    | none => ∀ d < fs.length, ∀ i info, ¬BindsAt rs i d x info := by
  induction fs with
  | nil =>
    intro d hd
    cases hd
  | cons f fs ih =>
    have hrest := ih h.2
    rw [List.findSome?_cons]
    cases hx : f.lookup x with
    | some info =>
      refine ⟨fs.length, (h.1 x info).1 hx, fun d' hd' hlt => ?_⟩
      rw [List.length_cons] at hd'
      omega
    | none =>
      -- nothing was declared in the innermost frame, so the others decide
      have hnone := h.not_bindsAt hx
      dsimp only
      cases hfs : fs.findSome? (·.lookup x) with
      | some info =>
        rw [hfs] at hrest
        obtain ⟨d, hfirst, hinner⟩ := hrest
        refine ⟨d, hfirst, fun d' hd' hlt => ?_⟩
        rcases Nat.lt_or_eq_of_le (Nat.le_of_lt_succ hd') with hd' | rfl
        · exact hinner d' hd' hlt
        · exact hnone
      | none =>
        rw [hfs] at hrest
        intro d hd
        rcases Nat.lt_or_eq_of_le (Nat.le_of_lt_succ hd) with hd | rfl
        · exact hrest d hd
        · exact hnone

/-- A table that keeps track looks names up as the history says. -/
theorem Tracks.isMeaning {t : ScopeTable} (h : Tracks rs t) (x : String) :
    IsMeaning rs x (t.lookup x) := by
  have hfound := h.records.findSome? x
  have hlen : t.frames.length = depth rs + 1 := by
    rw [ScopeTable.frames, List.length_cons, h.length_outer]
  have hopen {i d : Nat} {info : DeclInfo} (hb : BindsAt rs i d x info) : d < t.frames.length := by
    rw [hlen]
    exact Nat.lt_succ_of_le hb.le_depth
  unfold ScopeTable.lookup
  cases hfs : t.frames.findSome? (·.lookup x) with
  | some info =>
    rw [hfs] at hfound
    obtain ⟨d, ⟨i, hb, hfirst⟩, hinner⟩ := hfound
    refine ⟨i, d, hb, fun i' d' info' hb' => ?_⟩
    rcases Nat.lt_trichotomy d' d with hlt | rfl | hgt
    · exact .inl hlt
    · exact .inr ⟨rfl, hfirst i' info' hb'⟩
    · exact absurd hb' (hinner d' (hopen hb') hgt i' info')
  | none =>
    rw [hfs] at hfound
    intro i d info hb
    exact hfound d (hopen hb) i info hb

/-! ## Every request keeps the record -/

variable {t : ScopeTable}

theorem tracks_empty : Tracks [] .empty := by
  refine ⟨rfl, fun x info => ?_, trivial⟩
  constructor
  · intro h
    cases h
  · rintro ⟨i, hb, -⟩
    cases hb.lt_length

/-- A request that leaves the frames alone, when the same declarations are first in them. -/
theorem Tracks.keep (h : Tracks rs t) (hdepth : depth (rs ++ [r]) = depth rs)
    (hfirst : ∀ d x info, FirstAt rs d x info ↔ FirstAt (rs ++ [r]) d x info) :
    Tracks (rs ++ [r]) t :=
  ⟨h.length_outer.trans hdepth.symm, h.records.congr fun d _ x info => hfirst d x info⟩

/-- What is no declaration, and closes no frame, adds nothing to what counts. -/
theorem bindsAt_append_of_keep (hdepth : depth rs ≤ depth (rs ++ [r]))
    (hbind : ∀ s info, r = .bind s info → s.isError = true) :
    BindsAt rs i d x info ↔ BindsAt (rs ++ [r]) i d x info := by
  rw [bindsAt_append]
  constructor
  · intro hb
    exact .inl ⟨hb, Nat.le_trans hb.le_depth hdepth⟩
  · rintro (⟨hb, -⟩ | ⟨-, -, s, rfl, -, he⟩)
    · exact hb
    · rw [hbind s info rfl] at he
      cases he

theorem Tracks.read (h : Tracks rs t) (hdepth : depth (rs ++ [r]) = depth rs)
    (hbind : ∀ s info, r = .bind s info → s.isError = true) : Tracks (rs ++ [r]) t := by
  apply h.keep hdepth
  intro d x info
  exact FirstAt.congr fun _ _ => bindsAt_append_of_keep (Nat.le_of_eq hdepth.symm) hbind

theorem Tracks.push (h : Tracks rs t) : Tracks (rs ++ [.push]) t.push := by
  have hdepth : depth (rs ++ [.push]) = depth rs + 1 := depth_append_singleton ..
  have hlen : t.frames.length = depth rs + 1 := by
    rw [ScopeTable.frames, List.length_cons, h.length_outer]
  have hb {i d : Nat} {x : String} {info : DeclInfo} :
      BindsAt rs i d x info ↔ BindsAt (rs ++ [.push]) i d x info :=
    bindsAt_append_of_keep (by omega) fun s info hs => by cases hs
  refine ⟨hlen.trans hdepth.symm, fun x info => ?_,
    h.records.congr fun d _ x info => FirstAt.congr fun _ _ => hb⟩
  -- the new frame is empty, and nothing was declared inside the others so far
  constructor
  · intro hx
    cases hx
  · rintro ⟨i, hfirst, -⟩
    have hle : t.frames.length ≤ depth rs := (hb.2 hfirst).le_depth
    omega

theorem Tracks.pop (h : Tracks rs t) : Tracks (rs ++ [.pop]) t.pop := by
  have hdepth : depth (rs ++ [.pop]) = depth rs - 1 := depth_append_singleton ..
  have hlen := h.length_outer
  have hrecords := h.records
  unfold ScopeTable.pop
  cases ht : t.outer with
  | nil =>
    rw [ht, List.length_nil] at hlen
    exact h.read (by omega) fun s info hs => by cases hs
  | cons f fs =>
    rw [ht, List.length_cons] at hlen
    rw [ScopeTable.frames, ht] at hrecords
    refine ⟨by rw [hdepth, ← hlen]; rfl, hrecords.2.congr fun d hd x info => ?_⟩
    rw [List.length_cons] at hd
    apply FirstAt.congr
    intro i info
    -- the frame that was closed is inside those that are left
    rw [bindsAt_append, hdepth]
    constructor
    · intro hb
      exact .inl ⟨hb, by omega⟩
    · rintro (⟨hb, -⟩ | ⟨-, -, s, hs, -⟩)
      · exact hb
      · cases hs

/-- A declaration of a name that its frame has already is never the first. -/
theorem firstAt_append_of_bindsAt {s : Symbol} {new prior : DeclInfo} {i₀ : Nat}
    (h₀ : BindsAt rs i₀ (depth rs) s.name prior) :
    FirstAt rs d x info ↔ FirstAt (rs ++ [.bind s new]) d x info := by
  have hdepth : depth (rs ++ [.bind s new]) = depth rs := depth_append_singleton ..
  have hold {i d : Nat} {x : String} {info : DeclInfo} (hb : BindsAt rs i d x info) :
      BindsAt (rs ++ [.bind s new]) i d x info :=
    bindsAt_append.2 (.inl ⟨hb, hdepth ▸ hb.le_depth⟩)
  constructor
  · rintro ⟨i, hb, hfirst⟩
    refine ⟨i, hold hb, fun i' info' hb' => ?_⟩
    rcases bindsAt_append.1 hb' with ⟨hb', -⟩ | ⟨rfl, -⟩
    · exact hfirst i' info' hb'
    · exact Nat.le_of_lt hb.lt_length
  · rintro ⟨i, hb, hfirst⟩
    rcases bindsAt_append.1 hb with ⟨hb, -⟩ | ⟨rfl, rfl, s', hs', rfl, -⟩
    · exact ⟨i, hb, fun i' info' hb' => hfirst i' info' (hold hb')⟩
    · obtain ⟨rfl, -⟩ := ScopeRequest.bind.inj hs'
      exact absurd (hfirst i₀ prior (hold h₀)) (Nat.not_le_of_lt h₀.lt_length)

/-- The first declaration of a name in its frame is entered there. -/
theorem Tracks.enter (h : Tracks rs t) {s : Symbol} {new : DeclInfo} (he : s.isError = false)
    (hnone : t.inner.lookup s.name = none) :
    Tracks (rs ++ [.bind s new]) { t with inner := (s.name, new) :: t.inner } := by
  have hdepth : depth (rs ++ [.bind s new]) = depth rs := depth_append_singleton ..
  have hother {i d : Nat} {x : String} {info : DeclInfo} (hne : d ≠ depth rs ∨ x ≠ s.name) :
      BindsAt rs i d x info ↔ BindsAt (rs ++ [.bind s new]) i d x info := by
    rw [bindsAt_append, hdepth]
    constructor
    · intro hb
      exact .inl ⟨hb, hb.le_depth⟩
    · rintro (⟨hb, -⟩ | ⟨-, hd, s', hs', hx, -⟩)
      · exact hb
      · obtain ⟨rfl, -⟩ := ScopeRequest.bind.inj hs'
        exact absurd hne (by simp [hd, hx])
  have hlen := h.length_outer
  refine ⟨hlen.trans hdepth.symm, fun x info => ?_, h.records.2.congr fun d hd x info =>
    FirstAt.congr fun _ _ => hother (.inl (by omega))⟩
  show List.lookup x ((s.name, new) :: t.inner) = some info ↔ FirstAt _ t.outer.length x info
  by_cases hx : x = s.name
  · subst hx
    rw [List.lookup_cons_self, hlen, Option.some.injEq]
    have hlast : BindsAt (rs ++ [.bind s new]) rs.length (depth rs) s.name new :=
      bindsAt_append_length.2 ⟨rfl, s, rfl, rfl, he⟩
    have honly {i : Nat} {info : DeclInfo}
        (hb : BindsAt (rs ++ [.bind s new]) i (depth rs) s.name info) :
        i = rs.length ∧ info = new := by
      rcases bindsAt_append.1 hb with ⟨hb, -⟩ | ⟨hi, -, s', hs', -⟩
      · exact absurd (hlen ▸ hb) (h.records.not_bindsAt hnone i info)
      · exact ⟨hi, (ScopeRequest.bind.inj hs').2.symm⟩
    constructor
    · rintro rfl
      exact ⟨rs.length, hlast, fun i' info' hb' => Nat.le_of_eq (honly hb').1.symm⟩
    · rintro ⟨i, hb, -⟩
      exact (honly hb).2.symm
  · rw [List.lookup_cons, beq_eq_false_iff_ne.2 hx]
    exact (h.records.1 x info).trans (FirstAt.congr fun _ _ => hother (.inr hx))

/-- What is bound in the innermost frame, as the history has it. -/
theorem Tracks.lookup_inner_eq_none_iff (h : Tracks rs t) (x : String) :
    t.inner.lookup x = none ↔ ∀ i info, ¬BindsAt rs i (depth rs) x info := by
  rw [← h.length_outer]
  constructor
  · exact h.records.not_bindsAt
  · intro hnone
    rw [Option.eq_none_iff_forall_ne_some]
    intro info hx
    obtain ⟨i, hb, -⟩ := (h.records.1 x info).1 hx
    exact hnone i info hb

/-- **Every request keeps the table a record of what was asked.** -/
theorem Tracks.perform (h : Tracks rs t) (r : ScopeRequest) :
    Tracks (rs ++ [r]) (t.perform r).2 := by
  cases r with
  | push => exact h.push
  | pop => exact h.pop
  | find s => exact h.read (depth_append_singleton ..) fun s info hs => by cases hs
  | lookup x => exact h.read (depth_append_singleton ..) fun s info hs => by cases hs
  | bind s info =>
    have hdepth : depth (rs ++ [.bind s info]) = depth rs := depth_append_singleton ..
    by_cases he : s.isError = true
    · rw [ScopeTable.perform_bind_of_isError he]
      refine h.read hdepth fun s' info' hs' => ?_
      obtain ⟨rfl, -⟩ := ScopeRequest.bind.inj hs'
      exact he
    · rw [Bool.not_eq_true] at he
      cases hx : t.inner.lookup s.name with
      | none =>
        rw [ScopeTable.perform_bind_of_none he hx]
        exact h.enter he hx
      | some prior =>
        rw [ScopeTable.perform_bind_of_some he hx]
        obtain ⟨i, hb, -⟩ := (h.records.1 s.name prior).1 hx
        rw [h.length_outer] at hb
        exact h.keep hdepth fun d x info' => firstAt_append_of_bindsAt hb

theorem tracks_after (rs : List ScopeRequest) : Tracks rs (ScopeTable.empty.after rs) := by
  induction rs using List.reverseRecOn with
  | nil => exact tracks_empty
  | append_singleton rs r ih =>
    rw [ScopeTable.after_append]
    exact ih.perform r

/-! ## The answers -/

/-- How the next request is answered, after those that were made of a new table. -/
structure FirstWins (before : List ScopeRequest) (reply : ScopeRequest → ScopeReply) : Prop where
  /-- A name is looked up as the history says, and a symbol is found under its name. -/
  meaning : ∀ x, ∃ info?, IsMeaning before x info? ∧ reply (.lookup x) = ⟨.meaning info?, []⟩ ∧
    ∀ s : Symbol, s.name = x → s.isError = false → reply (.find s) =
      ⟨.meaning info?, if info?.isSome then [] else [(ScopeFault.undeclared s).diagnostic]⟩
  /-- The outermost frame is not closed. -/
  outermost : depth before = 0 → Traceless before [.pop]
  /-- A declaration is refused if its frame has the name already, and only then. -/
  refused_iff : ∀ s info, s.isError = false → ((reply (.bind s info)).answer = .bound false ↔
    ∃ i prior, BindsAt before i (depth before) s.name prior)
  /-- One that is refused is reported, with the place of the first, and makes no difference. -/
  refused : ∀ s info, (reply (.bind s info)).answer = .bound false →
    (∃ prior, FirstAt before (depth before) s.name prior ∧ reply (.bind s info) =
      ⟨.bound false, [(ScopeFault.redeclared s prior.span).diagnostic]⟩) ∧
    Traceless before [.bind s info]
  accepted : ∀ s info, (reply (.bind s info)).answer ≠ .bound false →
    reply (.bind s info) = ⟨.bound true, []⟩
  /-- A missing symbol is neither declared nor looked for, and nothing is reported. -/
  missing : ∀ s, s.isError = true →
    (∀ info, reply (.bind s info) = ⟨.bound true, []⟩ ∧ Traceless before [.bind s info]) ∧
    reply (.find s) = ⟨.meaning none, []⟩ ∧ Traceless before [.find s]
  /-- A frame that was opened and closed again leaves nothing behind. -/
  enclosed : ∀ middle, Balanced middle → Traceless before (.push :: middle ++ [.pop])

theorem Tracks.refused_iff (h : Tracks rs t) {s : Symbol} (he : s.isError = false) :
    (t.perform (.bind s info)).1.answer = .bound false ↔
      ∃ i prior, BindsAt rs i (depth rs) s.name prior := by
  have hnone := h.lookup_inner_eq_none_iff s.name
  cases hx : t.inner.lookup s.name with
  | none =>
    rw [ScopeTable.perform_bind_of_none he hx]
    refine iff_of_false (by simp) ?_
    rintro ⟨i, prior, hb⟩
    exact hnone.1 hx i prior hb
  | some prior =>
    rw [ScopeTable.perform_bind_of_some he hx]
    obtain ⟨i, hb, -⟩ := (h.records.1 s.name prior).1 hx
    exact iff_of_true rfl ⟨i, prior, h.length_outer ▸ hb⟩

/-- What a declaration is answered, and what it leaves. -/
theorem Tracks.perform_bind_cases (h : Tracks rs t) (s : Symbol) (info : DeclInfo) :
    (∃ prior, FirstAt rs (depth rs) s.name prior ∧ t.perform (.bind s info) =
      (⟨.bound false, [(ScopeFault.redeclared s prior.span).diagnostic]⟩, t)) ∨
    (t.perform (.bind s info)).1 = ⟨.bound true, []⟩ := by
  by_cases he : s.isError = true
  · rw [ScopeTable.perform_bind_of_isError he]
    exact .inr rfl
  · rw [Bool.not_eq_true] at he
    cases hx : t.inner.lookup s.name with
    | none =>
      rw [ScopeTable.perform_bind_of_none he hx]
      exact .inr rfl
    | some prior =>
      have hfirst := (h.records.1 s.name prior).1 hx
      rw [h.length_outer] at hfirst
      exact .inl ⟨prior, hfirst, ScopeTable.perform_bind_of_some he hx⟩

end ScopeRequest

open ScopeRequest in
/-- **A table of scopes is a stack of frames in which the first declaration wins**, after any
requests: every answer is what the history of the requests says, declarations are refused that would
be second in their frame, and what happened in a frame is forgotten when that is closed. -/
theorem ScopeTable.firstWins_after (before : List ScopeRequest) :
    FirstWins before fun r => ((empty.after before).perform r).1 := by
  have htracks := tracks_after before
  -- a request that leaves the table as it is makes no difference to what is asked later
  have htrace {r : ScopeRequest} (h : ((empty.after before).perform r).2 = empty.after before) :
      Traceless before [r] := traceless_of_after h
  refine ⟨fun x => ?_, fun hd => ?_, fun s info he => htracks.refused_iff he, fun s info ha => ?_,
    fun s info ha => ?_, fun s he => ⟨fun info => ?_, ?_⟩, fun middle hm => ?_⟩
  · refine ⟨_, htracks.isMeaning x, rfl, fun s hs he => ?_⟩
    rw [perform_find he, hs]
  · have houter : (empty.after before).outer = [] := by
      rw [← List.length_eq_zero_iff, htracks.length_outer, hd]
    apply htrace
    show (empty.after before).pop = _
    rw [pop, houter]
  · rcases htracks.perform_bind_cases s info with ⟨prior, hfirst, heq⟩ | hok
    · rw [heq]
      exact ⟨⟨prior, hfirst, rfl⟩, htrace (by rw [heq])⟩
    · rw [hok] at ha
      cases ha
  · rcases htracks.perform_bind_cases s info with ⟨prior, hfirst, heq⟩ | hok
    · rw [heq] at ha
      exact absurd rfl ha
    · exact hok
  · rw [perform_bind_of_isError he]
    exact ⟨rfl, htrace (by rw [perform_bind_of_isError he])⟩
  · rw [perform_find_of_isError he]
    exact ⟨rfl, htrace (by rw [perform_find_of_isError he])⟩
  · exact traceless_of_after (hm.after_eq _)

/-- An inner frame hides what is outside until it is closed, a second declaration is refused, and to
close the outermost frame changes nothing. -/
example :
    let place : Span := .point ⟨0⟩ .start
    let info (d : UInt32) : DeclInfo := ⟨⟨d⟩, "x", .int, place⟩
    let rs : List ScopeRequest := [.bind ⟨"x", place⟩ (info 0), .push, .bind ⟨"x", place⟩ (info 1),
      .bind ⟨"x", place⟩ (info 2), .lookup "x", .pop, .pop, .lookup "x"]
    (ScopeTable.empty.replies rs).map (·.answer) = [.bound true, .done, .bound true, .bound false,
      .meaning (some (info 1)), .done, .done, .meaning (some (info 0))] := by
  decide

end WhileLang
