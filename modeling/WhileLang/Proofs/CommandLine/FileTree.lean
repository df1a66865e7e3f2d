import WhileLang.CommandLine.FileTree

/-!
# `WhileLang/Proofs/CommandLine/FileTree.lean` — what is written is read back

Seen from the root, a tree of files has an entry at the end of each way down (`Listing.down?`). A
place that a path leads to knows its own way from the root (`Place.In`), and that is all that
matters of it: **in a tree with the same directories a path leads to the same place**
(`FileTree.pathEnd_of_kept`).

To write a file, or to make a directory, takes no directory away and changes no file but the one
that is written (`FileTree.Kept`). So **what was written at a path is read at it**
(`FileTree.read_write`), and what else could be read is read as before
(`FileTree.read_write_of_ne`).
-/

set_option autoImplicit false

namespace WhileLang

/-- What succeeds in two steps has a first result, from which the second one comes. -/
theorem exists_of_bind_eq_ok {ε α β : Type} {x : Except ε α} {f : α → Except ε β} {b : β}
    (h : x >>= f = .ok b) : ∃ a, x = .ok a ∧ f a = .ok b := by
  cases x with
  | error e => cases h
  | ok a => exact ⟨a, rfl, h⟩

/-! ## Entries, from the root down -/

/-- What may become of an entry: a directory stays one, and a file stays as it is or is written. -/
inductive Entry.Kept (Written : Source → Prop) : Entry → Entry → Prop where
  | directory (inner inner' : Listing) : Kept Written (.directory inner) (.directory inner')
  | file (content : Source) : Kept Written (.file content) (.file content)
  | written (content : Source) {text : Source} : Written text →
    Kept Written (.file content) (.file text)

namespace Listing

/-- The entry at the end of a way down. Only a directory leads on. -/
def down? : Listing → List String → Option Entry
  | l, [] => some (.directory l)
  | l, name :: names =>
    match l.find? name with
    | some (.directory inner) => inner.down? names
    | some (.file content) => if names = [] then some (.file content) else none
    | none => none

/-- The entry at the end of a way on from an entry. -/
def onward (names : List String) : Entry → Option Entry
  | .directory inner => inner.down? names
  | .file content => if names = [] then some (.file content) else none

/-- Every entry is kept where it is, apart from files that are written there. -/
def Kept (Written : List String → Source → Prop) (l l' : Listing) : Prop :=
  ∀ names e, l.down? names = some e →
    ∃ e', l'.down? names = some e' ∧ e.Kept (Written names) e'

variable {Written Written' : List String → Source → Prop} {l l' l'' inner inner' : Listing}
  {name : String} {names : List String} {entry : Entry}

theorem down?_cons (l : Listing) (name : String) (names : List String) :
    l.down? (name :: names) = (l.find? name).bind (onward names) := by
  rw [down?]
  cases l.find? name with
  | none => rfl
  | some e => cases e <;> rfl

theorem down?_singleton (l : Listing) (name : String) : l.down? [name] = l.find? name := by
  rw [down?_cons]
  cases l.find? name with
  | none => rfl
  | some e => cases e <;> rfl

theorem down?_append (h : l.down? names = some (.directory inner)) (more : List String) :
    l.down? (names ++ more) = inner.down? more := by
  induction names generalizing l with
  | nil =>
    cases h
    rfl
  | cons name names ih =>
    rw [down?_cons, Option.bind_eq_some_iff] at h
    obtain ⟨e, hfind, hon⟩ := h
    rw [List.cons_append, down?_cons, hfind]
    cases e with
    | directory d => exact ih hon
    | file content =>
      rw [onward] at hon
      split at hon <;> cases hon

theorem down?_put_cons (l : Listing) (name : String) (entry : Entry) (names : List String) :
    (l.put name entry).down? (name :: names) = onward names entry := by
  rw [down?_cons, find?_put_self]
  rfl

theorem down?_put_cons_of_ne {other : String} (h : other ≠ name) (l : Listing) (entry : Entry)
    (names : List String) :
    (l.put name entry).down? (other :: names) = l.down? (other :: names) := by
  rw [down?_cons, find?_put_of_ne h, down?_cons]

/-! ### What is kept -/

theorem Kept.refl (l : Listing) : Kept Written l l := by
  intro names e he
  refine ⟨e, he, ?_⟩
  cases e with
  | file content => exact .file content
  | directory inner => exact .directory inner inner

theorem Kept.trans (h : Kept Written l l') (h' : Kept Written l' l'') : Kept Written l l'' := by
  intro names e he
  obtain ⟨e', he', hk⟩ := h names e he
  obtain ⟨e'', he'', hk'⟩ := h' names e' he'
  refine ⟨e'', he'', ?_⟩
  cases hk with
  | directory =>
    cases hk' with
    | directory => exact .directory _ _
  | file content => exact hk'
  | written content hw =>
    cases hk' with
    | file => exact .written content hw
    | written _ hw' => exact .written content hw'

theorem Kept.mono (h : Kept Written l l') (hw : ∀ names text, Written names text →
    Written' names text) : Kept Written' l l' := by
  intro names e he
  obtain ⟨e', he', hk⟩ := h names e he
  refine ⟨e', he', ?_⟩
  cases hk with
  | directory => exact .directory _ _
  | file content => exact .file content
  | written content hmem => exact .written content (hw _ _ hmem)

/-- To put an entry under a name matters only for what is found by way of this name. -/
theorem kept_put (h : ∀ found names e, l.find? name = some found → onward names found = some e →
      ∃ e', onward names entry = some e' ∧ e.Kept (Written (name :: names)) e') :
    Kept Written l (l.put name entry) := by
  intro names e he
  cases names with
  | nil =>
    cases he
    exact ⟨_, rfl, .directory _ _⟩
  | cons other names =>
    by_cases hne : other = name
    · subst hne
      rw [down?_cons, Option.bind_eq_some_iff] at he
      obtain ⟨found, hfind, hon⟩ := he
      rw [down?_put_cons]
      exact h found names e hfind hon
    · rw [down?_put_cons_of_ne hne]
      exact Kept.refl l _ _ he

/-- A file may be put in the place of another one. -/
theorem kept_put_file (h : ∀ inner, l.find? name ≠ some (.directory inner)) {text : Source}
    (hw : Written [name] text) : Kept Written l (l.put name (.file text)) := by
  refine kept_put fun found names e hfind hon => ?_
  cases found with
  | directory inner => exact absurd hfind (h inner)
  | file content =>
    rw [onward] at hon ⊢
    by_cases hn : names = []
    · subst hn
      cases hon
      exact ⟨_, rfl, .written content hw⟩
    · rw [if_neg hn] at hon
      cases hon

theorem kept_put_of_find?_eq_none (h : l.find? name = none) (entry : Entry) :
    Kept Written l (l.put name entry) := by
  refine kept_put fun found _ _ hfind _ => ?_
  rw [h] at hfind
  cases hfind

/-- A directory may be put in the place of one of which it keeps the entries. -/
theorem kept_put_directory (hfind : l.find? name = some (.directory inner))
    (h : Kept (fun names => Written (name :: names)) inner inner') :
    Kept Written l (l.put name (.directory inner')) := by
  refine kept_put fun found names e hfound hon => ?_
  rw [hfind] at hfound
  cases hfound
  exact h names e hon

end Listing

/-! ## Places -/

namespace Place

/-- The names on the way from the root. -/
def names (p : Place) : List String := (p.way.map (·.1)).reverse

/-- Each directory on the way is found in the one above it, and the last of them is the root. -/
def Way (root : Listing) : Listing → List (String × Listing) → Prop
  | here, [] => here = root
  | here, (name, outer) :: way => outer.find? name = some (.directory here) ∧ Way root outer way

def In (p : Place) (root : Listing) : Prop := Way root p.here p.way

variable {root root' here here' : Listing} {way : List (String × Listing)} {p p' q : Place}
  {Written : List String → Source → Prop}

theorem names_cons (here : Listing) (name : String) (outer : Listing)
    (way : List (String × Listing)) :
    (⟨here, (name, outer) :: way⟩ : Place).names = (⟨outer, way⟩ : Place).names ++ [name] := by
  simp [names]

theorem in_root (root : Listing) : (⟨root, []⟩ : Place).In root := rfl

theorem Way.down? (h : Way root here way) :
    root.down? (⟨here, way⟩ : Place).names = some (.directory here) := by
  induction way generalizing here with
  | nil =>
    cases h
    rfl
  | cons outer way ih =>
    obtain ⟨hfind, hway⟩ := h
    rw [names_cons, Listing.down?_append (ih hway), Listing.down?_singleton, hfind]

/-- What is found in a place is what stands behind its names. -/
theorem In.find? (h : p.In root) (name : String) :
    root.down? (p.names ++ [name]) = p.here.find? name := by
  rw [Listing.down?_append (Way.down? h), Listing.down?_singleton]

theorem In.up (h : p.In root) : p.up.In root := by
  obtain ⟨here, way⟩ := p
  cases way with
  | nil => exact h
  | cons outer way => exact h.2

theorem names_up (p : Place) : p.up.names = p.names.dropLast := by
  obtain ⟨here, way⟩ := p
  cases way with
  | nil => rfl
  | cons outer way =>
    rw [names_cons, List.dropLast_concat]
    rfl

theorem find?_eq_ok_iff {name : String} {found : Option Entry} :
    p.find? name = .ok found ↔ name.utf8ByteSize ≤ maxName ∧ p.here.find? name = found := by
  unfold Place.find?
  by_cases hlen : maxName < name.utf8ByteSize
  · simp [hlen, Nat.not_le_of_lt hlen]
  · simp [hlen, Nat.le_of_not_lt hlen]

theorem enter_eq_ok_iff {name : String} : p.enter name = .ok q ↔
    name.utf8ByteSize ≤ maxName ∧ ∃ inner, p.here.find? name = some (.directory inner) ∧
      q = ⟨inner, (name, p.here) :: p.way⟩ := by
  unfold enter
  cases hfound : p.find? name with
  | error cause =>
    refine iff_of_false (fun h => by cases h) ?_
    rintro ⟨hlen, inner, hinner, -⟩
    have hok := find?_eq_ok_iff.2 ⟨hlen, hinner⟩
    rw [hfound] at hok
    cases hok
  | ok found =>
    obtain ⟨hlen, hfind⟩ := find?_eq_ok_iff.1 hfound
    rw [hfind]
    cases found with
    | none => simp [bind, Except.bind]
    | some e => cases e <;> simp [bind, Except.bind, hlen, eq_comm]

/-- **In trees of which one keeps what the other has, the same names lead to the same place.** -/
theorem follow_of_kept {ns : List String} (h : p.In root) (h' : p'.In root')
    (hnames : p'.names = p.names) (hk : Listing.Kept Written root root')
    (hq : p.follow ns = .ok q) :
    q.In root ∧ ∃ q', p'.follow ns = .ok q' ∧ q'.In root' ∧ q'.names = q.names := by
  induction ns generalizing p p' with
  | nil =>
    cases hq
    exact ⟨h, p', rfl, h', hnames⟩
  | cons name ns ih =>
    rw [follow] at hq ⊢
    by_cases hstays : Path.stays name = true
    · rw [if_pos hstays] at hq ⊢
      exact ih h h' hnames hq
    · rw [if_neg hstays] at hq ⊢
      by_cases hup : name = ".."
      · rw [if_pos hup] at hq ⊢
        exact ih h.up h'.up (by rw [names_up, names_up, hnames]) hq
      · rw [if_neg hup] at hq ⊢
        cases henter : p.enter name with
        | error cause =>
          rw [henter] at hq
          cases hq
        | ok next =>
          rw [henter] at hq
          obtain ⟨hlen, inner, hfind, rfl⟩ := enter_eq_ok_iff.1 henter
          -- the directory that is entered is there in the other tree, too
          obtain ⟨_, hfind', hentry⟩ := hk _ _ ((h.find? name).trans hfind)
          cases hentry with
          | directory _ inner' =>
            rw [← hnames, h'.find? name] at hfind'
            have henter' := enter_eq_ok_iff.2 ⟨hlen, inner', hfind', rfl⟩
            rw [henter']
            have hin : (⟨inner, (name, p.here) :: p.way⟩ : Place).In root := ⟨hfind, h⟩
            have hin' : (⟨inner', (name, p'.here) :: p'.way⟩ : Place).In root' := ⟨hfind', h'⟩
            refine ih hin hin' ?_ hq
            rw [names_cons, names_cons]
            exact congrArg (· ++ [name]) hnames

/-! ### The root of a changed place -/

/-- What a place keeps is kept from the root on. -/
theorem kept_root (h : Way root here way)
    (hk : Listing.Kept (fun ns => Written ((⟨here, way⟩ : Place).names ++ ns)) here here') :
    Listing.Kept Written root (⟨here', way⟩ : Place).root := by
  induction way generalizing here here' with
  | nil =>
    cases h
    exact hk
  | cons outer way ih =>
    obtain ⟨hfind, hway⟩ := h
    refine ih hway (Listing.kept_put_directory hfind (hk.mono fun ns text hw => ?_))
    rw [names_cons, List.append_assoc] at hw
    exact hw

/-- The root has the place where its names say. -/
theorem down?_root (p : Place) (ns : List String) :
    p.root.down? (p.names ++ ns) = p.here.down? ns := by
  obtain ⟨here, way⟩ := p
  induction way generalizing here ns with
  | nil => rfl
  | cons outer way ih =>
    obtain ⟨name, outer⟩ := outer
    rw [names_cons, List.append_assoc]
    exact (ih (name :: ns) (outer.put name (.directory here))).trans
      (Listing.down?_put_cons outer name (.directory here) ns)

end Place

/-! ## Paths -/

namespace Path

/-- A path that can be followed at all. -/
def Usable (path : String) : Prop :=
  path.contains '\x00' = false ∧ path ≠ "" ∧ path.utf8ByteSize ≤ maxPath

/-- The names of a path, the last first, without the empty ones at its end. -/
def backward (path : String) : List String :=
  (names path).reverse.dropWhile (· = "")

/-- The names that lead to the place in which the last one is looked up. -/
def way (path : String) : List String := (backward path).tail.reverse

/-- The last name, unless it stays or goes back. -/
def last? (path : String) : Option String :=
  (backward path).head?.bind fun last => if last = "." ∨ last = ".." then none else some last

def isClosed (path : String) : Bool := (names path).reverse.head? = some ""

end Path

/-! ## Trees -/

namespace FileTree

variable {t t' t'' : FileTree} {path other : String} {content : Source} {goal : PathEnd}
  {Written Written' : List String → Source → Prop}

/-- The place of work is the same, and every entry is kept, apart from files that are written. -/
structure Kept (Written : List String → Source → Prop) (t t' : FileTree) : Prop where
  workplace : t'.workplace = t.workplace
  root : Listing.Kept Written t.root t'.root

theorem Kept.refl (t : FileTree) : Kept Written t t :=
  ⟨rfl, .refl t.root⟩

theorem Kept.trans (h : Kept Written t t') (h' : Kept Written t' t'') : Kept Written t t'' :=
  ⟨h'.workplace.trans h.workplace, h.root.trans h'.root⟩

theorem Kept.mono (h : Kept Written t t') (hw : ∀ names text, Written names text →
    Written' names text) : Kept Written' t t' :=
  ⟨h.workplace, h.root.mono hw⟩

theorem work_of_kept {place : Place} (hk : Kept Written t t') (h : t.work = .ok place) :
    place.In t.root ∧ ∃ place', t'.work = .ok place' ∧ place'.In t'.root ∧
      place'.names = place.names := by
  rw [work, hk.workplace]
  exact Place.follow_of_kept (Place.in_root t.root) (Place.in_root t'.root) rfl hk.root h

/-- Where the names of a path are followed from. -/
def start (t : FileTree) (path : String) : Except FileFault Place :=
  if Path.isAbsolute path then .ok ⟨t.root, []⟩ else t.work

theorem start_of_kept {place : Place} (hk : Kept Written t t') (h : t.start path = .ok place) :
    place.In t.root ∧ ∃ place', t'.start path = .ok place' ∧ place'.In t'.root ∧
      place'.names = place.names := by
  rw [start] at h ⊢
  by_cases ha : Path.isAbsolute path = true
  · rw [if_pos ha] at h ⊢
    cases h
    exact ⟨Place.in_root _, _, rfl, Place.in_root _, rfl⟩
  · rw [if_neg ha] at h ⊢
    exact work_of_kept hk h

/-- A path that is not refused as such is followed along its names. -/
theorem pathEnd_of_usable (h : Path.Usable path) :
    t.pathEnd path = (t.start path).bind fun start => (start.follow (Path.way path)).map
      fun place => ⟨place, Path.last? path, Path.isClosed path⟩ := by
  obtain ⟨hnul, hempty, hlen⟩ := h
  unfold pathEnd start Path.way Path.last? Path.backward
  rw [if_neg (by simp [hnul]), if_neg hempty, if_neg (Nat.not_lt_of_le hlen)]
  dsimp only
  cases (Path.names path).reverse.dropWhile (· = "") with
  | nil =>
    by_cases ha : Path.isAbsolute path = true
    · simp only [if_pos ha]
      rfl
    · simp only [if_neg ha]
      rfl
  | cons last way =>
    have hfollow (start : Place) : (start.follow way.reverse >>= fun place =>
        pure ⟨place, if last = "." ∨ last = ".." then none else some last, Path.isClosed path⟩) =
          (start.follow way.reverse).map fun place =>
            PathEnd.mk place (if last = "." ∨ last = ".." then none else some last)
              (Path.isClosed path) := by
      cases start.follow way.reverse <;> rfl
    by_cases ha : Path.isAbsolute path = true
    · simp only [if_pos ha]
      exact hfollow _
    · simp only [if_neg ha]
      exact bind_congr hfollow

/-- What is refused as such is refused in every tree. -/
theorem usable_of_pathEnd (h : t.pathEnd path = .ok goal) : Path.Usable path := by
  unfold pathEnd at h
  by_cases hnul : path.contains '\x00' = true
  · rw [if_pos hnul] at h
    cases h
  by_cases hempty : path = ""
  · rw [if_neg hnul, if_pos hempty] at h
    cases h
  by_cases hlen : maxPath < path.utf8ByteSize
  · rw [if_neg hnul, if_neg hempty, if_pos hlen] at h
    cases h
  exact ⟨by simpa using hnul, hempty, Nat.le_of_not_lt hlen⟩

/-- A path that can be followed leads to the end that its names say. -/
theorem exists_of_pathEnd (h : t.pathEnd path = .ok goal) : ∃ place place',
    t.start path = .ok place ∧ place.follow (Path.way path) = .ok place' ∧
      goal = ⟨place', Path.last? path, Path.isClosed path⟩ := by
  rw [pathEnd_of_usable (usable_of_pathEnd h)] at h
  cases hstart : t.start path with
  | error cause =>
    rw [hstart] at h
    cases h
  | ok place =>
    rw [hstart] at h
    cases hfollow : place.follow (Path.way path) with
    | error cause =>
      rw [Except.bind, hfollow] at h
      cases h
    | ok place' =>
      rw [Except.bind, hfollow] at h
      cases h
      exact ⟨place, place', rfl, hfollow, rfl⟩

/-- **A path that can be followed leads to the same end**, if the tree has kept what it had. -/
theorem pathEnd_of_kept (hk : Kept Written t t') (h : t.pathEnd path = .ok goal) :
    goal.place.In t.root ∧ ∃ place', t'.pathEnd path = .ok ⟨place', goal.last, goal.closed⟩ ∧
      place'.In t'.root ∧ place'.names = goal.place.names := by
  obtain ⟨start, place, hstart, hfollow, rfl⟩ := exists_of_pathEnd h
  obtain ⟨hin, start', hstart', hin', hnames⟩ := start_of_kept hk hstart
  obtain ⟨hplace, place', hfollow', hplace', hnames'⟩ :=
    Place.follow_of_kept hin hin' hnames hk.root hfollow
  refine ⟨hplace, place', ?_, hplace', hnames'⟩
  rw [pathEnd_of_usable (usable_of_pathEnd h), hstart', Except.bind, hfollow']
  rfl

/-! ### What is done at the end of a path -/

/-- A file is read where a path ends at its name. -/
theorem read_eq_ok_iff : t.read path = .ok content ↔ ∃ place name,
    t.pathEnd path = .ok ⟨place, some name, false⟩ ∧ name.utf8ByteSize ≤ maxName ∧
      place.here.find? name = some (.file content) := by
  constructor
  · intro h
    obtain ⟨⟨place, last, closed⟩, hgoal, h⟩ := exists_of_bind_eq_ok h
    cases last with
    | none => cases h
    | some name =>
      obtain ⟨found, hfound, h⟩ := exists_of_bind_eq_ok h
      obtain ⟨hlen, hfind⟩ := Place.find?_eq_ok_iff.1 hfound
      rcases found with _ | (content' | inner)
      · cases h
      · cases closed with
        | true => cases h
        | false =>
          cases h
          exact ⟨place, name, hgoal, hlen, hfind⟩
      · cases h
  · rintro ⟨place, name, hgoal, hlen, hfind⟩
    have hfound := Place.find?_eq_ok_iff.2 ⟨hlen, hfind⟩
    rw [read, hgoal]
    show place.find? name >>= _ = _
    rw [hfound]
    rfl

theorem exists_of_write (h : t.write path content = .ok t') : ∃ place name,
    t.pathEnd path = .ok ⟨place, some name, false⟩ ∧ name.utf8ByteSize ≤ maxName ∧
      (∀ inner, place.here.find? name ≠ some (.directory inner)) ∧
      t' = ⟨(place.put name (.file content)).root, t.workplace⟩ := by
  obtain ⟨⟨place, last, closed⟩, hgoal, h⟩ := exists_of_bind_eq_ok h
  cases last with
  | none => cases h
  | some name =>
    cases closed with
    | true => cases h
    | false =>
      obtain ⟨found, hfound, h⟩ := exists_of_bind_eq_ok h
      obtain ⟨hlen, hfind⟩ := Place.find?_eq_ok_iff.1 hfound
      refine ⟨place, name, hgoal, hlen, ?_⟩
      rw [hfind]
      rcases found with _ | (content' | inner)
      · cases h
        exact ⟨by simp, rfl⟩
      · cases h
        exact ⟨by simp, rfl⟩
      · cases h

theorem exists_of_makeDir (h : t.makeDir path = .ok t') : ∃ place name closed,
    t.pathEnd path = .ok ⟨place, some name, closed⟩ ∧ place.here.find? name = none ∧
      t' = ⟨(place.put name (.directory .empty)).root, t.workplace⟩ := by
  obtain ⟨⟨place, last, closed⟩, hgoal, h⟩ := exists_of_bind_eq_ok h
  cases last with
  | none => cases h
  | some name =>
    obtain ⟨found, hfound, h⟩ := exists_of_bind_eq_ok h
    obtain ⟨-, hfind⟩ := Place.find?_eq_ok_iff.1 hfound
    cases found with
    | some e => cases h
    | none =>
      cases h
      exact ⟨place, name, closed, hgoal, hfind, rfl⟩

/-- A place knows its way from the root. -/
theorem in_of_pathEnd (h : t.pathEnd path = .ok goal) : goal.place.In t.root :=
  (pathEnd_of_kept (Kept.refl t : Kept (fun _ _ => False) t t) h).1

/-- The way from the root to what a path names. -/
def target? (t : FileTree) (path : String) : Option (List String) :=
  match t.pathEnd path with
  | .ok ⟨place, some name, _⟩ => some (place.names ++ [name])
  | _ => none

theorem target?_of_pathEnd {place : Place} {name : String} {closed : Bool}
    (h : t.pathEnd path = .ok ⟨place, some name, closed⟩) :
    t.target? path = some (place.names ++ [name]) := by
  rw [target?, h]

/-- A path goes on to name the same. -/
theorem target?_of_kept {names : List String} (hk : Kept Written t t')
    (h : t.target? path = some names) : t'.target? path = some names := by
  unfold target? at h
  split at h
  · rename_i place name closed hgoal
    obtain ⟨-, place', hgoal', -, hnames⟩ := pathEnd_of_kept hk hgoal
    rw [target?_of_pathEnd hgoal', hnames]
    exact h
  · cases h

/-- **To write a file keeps everything but the file at the path.** -/
theorem kept_write (h : t.write path content = .ok t') :
    Kept (fun names text => t.target? path = some names ∧ text = content) t t' := by
  obtain ⟨place, name, hgoal, -, hfile, rfl⟩ := exists_of_write h
  have htarget := target?_of_pathEnd hgoal
  exact ⟨rfl, Place.kept_root (in_of_pathEnd hgoal) (Listing.kept_put_file hfile ⟨htarget, rfl⟩)⟩

/-- **To make a directory keeps everything.** -/
theorem kept_makeDir (h : t.makeDir path = .ok t') : Kept Written t t' := by
  obtain ⟨place, name, closed, hgoal, hnone, rfl⟩ := exists_of_makeDir h
  exact ⟨rfl, Place.kept_root (in_of_pathEnd hgoal) (Listing.kept_put_of_find?_eq_none hnone _)⟩

/-- **What is written at a path is read at it.** -/
theorem read_write (h : t.write path content = .ok t') : t'.read path = .ok content := by
  have hk := kept_write h
  obtain ⟨place, name, hgoal, hlen, -, rfl⟩ := exists_of_write h
  obtain ⟨-, place', hgoal', hin', hnames⟩ := pathEnd_of_kept hk hgoal
  refine read_eq_ok_iff.2 ⟨place', name, hgoal', hlen, ?_⟩
  -- the names of the place lead to the changed one from the new root
  have hentry := Place.down?_root (place.put name (.file content)) [name]
  rw [Listing.down?_singleton] at hentry
  rw [← hin'.find? name, hnames]
  exact hentry.trans (Listing.find?_put_self name (.file content) place.here)

/-- What could be read can be read after, as it was or as it was written where the path leads. -/
theorem read_of_kept (hk : Kept Written t t') (h : t.read path = .ok content) :
    ∃ content', t'.read path = .ok content' ∧
      (content' = content ∨ ∃ names, t.target? path = some names ∧ Written names content') := by
  obtain ⟨place, name, hgoal, hlen, hfind⟩ := read_eq_ok_iff.1 h
  obtain ⟨hin, place', hgoal', hin', hnames⟩ := pathEnd_of_kept hk hgoal
  obtain ⟨e', hentry, hkept⟩ := hk.root _ _ ((hin.find? name).trans hfind)
  rw [← hnames, hin'.find? name] at hentry
  cases hkept with
  | file => exact ⟨content, read_eq_ok_iff.2 ⟨place', name, hgoal', hlen, hentry⟩, .inl rfl⟩
  | written _ hw =>
    exact ⟨_, read_eq_ok_iff.2 ⟨place', name, hgoal', hlen, hentry⟩,
      .inr ⟨_, target?_of_pathEnd hgoal, hw⟩⟩

/-- **What is not written is read as before.** -/
theorem read_write_of_ne (h : t.write path content = .ok t') {old : Source}
    (hold : t.read other = .ok old) (hne : t.target? other ≠ t.target? path) :
    t'.read other = .ok old := by
  obtain ⟨content', hread, rfl | ⟨names, hnames, hpath, -⟩⟩ := read_of_kept (kept_write h) hold
  · exact hread
  · exact absurd (hnames.trans hpath.symm) hne

end FileTree

end WhileLang
