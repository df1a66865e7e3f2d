import WhileLang.CommandLine.Path
import WhileLang.Source.Position
import WhileLang.Source.FileFault

/-!
# `WhileLang/CommandLine/FileTree.lean` — a tree of files, held in memory

Directories hold files and directories under names, and one of them is the place of work, from which
relative paths are followed. A path is **followed name by name**: every name but the last must be
that of a directory, `.` stays, and `..` goes back, though not beyond the root. A place is known
together with the way to it, so that going back needs no search.
-/

set_option autoImplicit false

namespace WhileLang

inductive Listing where
  | empty
  | file (name : String) (content : Source) (rest : Listing)
  | directory (name : String) (inner : Listing) (rest : Listing)
deriving DecidableEq, Repr, Inhabited

inductive Entry where
  | file (content : Source)
  | directory (inner : Listing)
deriving DecidableEq, Repr

namespace Listing

def find? (name : String) : Listing → Option Entry
  | .empty => none
  | .file n content rest => if n = name then some (.file content) else rest.find? name
  | .directory n inner rest => if n = name then some (.directory inner) else rest.find? name

def erase (name : String) : Listing → Listing
  | .empty => .empty
  | .file n content rest =>
    if n = name then rest.erase name else .file n content (rest.erase name)
  | .directory n inner rest =>
    if n = name then rest.erase name else .directory n inner (rest.erase name)

/-- Puts an entry under a name, in place of what is there. -/
def put (name : String) (entry : Entry) (l : Listing) : Listing :=
  match entry with
  | .file content => .file name content (l.erase name)
  | .directory inner => .directory name inner (l.erase name)

/-- The files with the names on the way to them, and their bytes. -/
def files : Listing → List (List String × Source)
  | .empty => []
  | .file name content rest => ([name], content) :: rest.files
  | .directory name inner rest =>
    inner.files.map (fun f => (name :: f.1, f.2)) ++ rest.files

theorem find?_erase_of_ne {name other : String} (h : other ≠ name) (l : Listing) :
    (l.erase name).find? other = l.find? other := by
  induction l with
  | empty => rfl
  | file n content rest ih =>
    by_cases hn : n = name
    · subst hn
      simp [erase, find?, ih, Ne.symm h]
    · simp [erase, find?, hn, ih]
  | directory n inner rest _ ih =>
    by_cases hn : n = name
    · subst hn
      simp [erase, find?, ih, Ne.symm h]
    · simp [erase, find?, hn, ih]

theorem find?_put_self (name : String) (entry : Entry) (l : Listing) :
    (l.put name entry).find? name = some entry := by
  cases entry <;> simp [put, find?]

theorem find?_put_of_ne {name other : String} (h : other ≠ name) (entry : Entry) (l : Listing) :
    (l.put name entry).find? other = l.find? other := by
  cases entry <;> simp [put, find?, Ne.symm h, find?_erase_of_ne h]

end Listing

structure Place where
  here : Listing
  /-- The name of each directory on the way in the one above it, and what that one holds; nearest
  first. -/
  way : List (String × Listing)

def maxName : Nat := 255

def maxPath : Nat := 4095

namespace Place

/-- The directory above; the root has none, and stays. -/
def up (p : Place) : Place :=
  match p.way with
  | [] => p
  | (_, outer) :: way => ⟨outer, way⟩

def find? (p : Place) (name : String) : Except FileFault (Option Entry) :=
  if maxName < name.utf8ByteSize then .error .nameTooLong else .ok (p.here.find? name)

def enter (p : Place) (name : String) : Except FileFault Place := do
  match ← p.find? name with
  | none => .error .notFound
  | some (.file _) => .error .notDirectory
  | some (.directory inner) => .ok ⟨inner, (name, p.here) :: p.way⟩

/-- Follows names, all of which must be those of directories. -/
def follow (p : Place) : List String → Except FileFault Place
  | [] => .ok p
  | name :: names =>
    if Path.stays name then p.follow names
    else if name = ".." then p.up.follow names
    else do
      let inner ← p.enter name
      inner.follow names

/-- What the root holds when this directory holds what it does. -/
def root (p : Place) : Listing :=
  p.way.foldl (fun inner outer => outer.2.put outer.1 (.directory inner)) p.here

def put (p : Place) (name : String) (entry : Entry) : Place :=
  { p with here := p.here.put name entry }

end Place

/-- What a path points at: a directory, and what is looked up in it. -/
structure PathEnd where
  /-- The directory that all names but the last lead to. -/
  place : Place
  /-- The last name, unless it stays or goes back. -/
  last : Option String
  /-- Whether slashes follow the last name, so that it must be a directory's. -/
  closed : Bool

/-- A tree of files with a place of work. -/
structure FileTree where
  root : Listing
  /-- The names on the way from the root to the place of work. -/
  workplace : List String

namespace FileTree

/-- The tree in which there is nothing but the place of work. -/
def ofWorkplace (names : List String) : FileTree :=
  ⟨names.foldr (fun name inner => .directory name inner .empty) .empty, names⟩

def work (t : FileTree) : Except FileFault Place :=
  Place.follow ⟨t.root, []⟩ t.workplace

/-- Follows a path up to its last name. -/
def pathEnd (t : FileTree) (path : String) : Except FileFault PathEnd := do
  if path.contains '\x00' then throw .nulInName
  if path = "" then throw .notFound
  if maxPath < path.utf8ByteSize then throw .nameTooLong
  let start ← if Path.isAbsolute path then pure ⟨t.root, []⟩ else t.work
  let names := (Path.names path).reverse
  -- an empty last name is what stands after the last slash
  let closed := names.head? = some ""
  match names.dropWhile (· = "") with
  | [] => return ⟨start, none, closed⟩
  | last :: way =>
    let place ← start.follow way.reverse
    return ⟨place, if last = "." ∨ last = ".." then none else some last, closed⟩

def read (t : FileTree) (path : String) : Except FileFault Source := do
  let goal ← t.pathEnd path
  match goal.last with
  | none => throw .isDirectory
  | some name =>
    match ← goal.place.find? name with
    | none => throw .notFound
    | some (.directory _) => throw .isDirectory
    | some (.file content) => if goal.closed then throw .notDirectory else return content

/-- Writes a file at a path, in place of what is there. -/
def write (t : FileTree) (path : String) (content : Source) : Except FileFault FileTree := do
  let goal ← t.pathEnd path
  match goal.last with
  | none => throw .isDirectory
  | some name =>
    if goal.closed then throw .isDirectory
    match ← goal.place.find? name with
    | some (.directory _) => throw .isDirectory
    | _ => return { t with root := (goal.place.put name (.file content)).root }

/-- Makes the directory at a path; the one it lies in must be there. -/
def makeDir (t : FileTree) (path : String) : Except FileFault FileTree := do
  let goal ← t.pathEnd path
  match goal.last with
  | none => throw .alreadyExists
  | some name =>
    match ← goal.place.find? name with
    | some _ => throw .alreadyExists
    | none => return { t with root := (goal.place.put name (.directory .empty)).root }

/-- The files at the place of work and below, with their paths from there and their bytes. -/
def files (t : FileTree) : List (String × Source) :=
  match t.work with
  | .ok place => place.here.files.map fun f => ("/".intercalate f.1, f.2)
  | .error _ => []

end FileTree

end WhileLang
