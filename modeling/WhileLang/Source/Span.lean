import WhileLang.Source.Position

/-!
# `WhileLang/Source/Span.lean` — stretches of source text, and how they are shown

A `Span` names a file and the places of its first and last character, **both included**. It is
shown with as few numbers as identify it: a single place as `row:column`, a stretch within one
row by its second column only, and anything else by both places. The three forms never coincide,
since the number of colons and the presence of a dash tell them apart.
-/

set_option autoImplicit false

namespace WhileLang

/-- The names of the files a run knows, in the order in which they were registered. -/
structure FileTable where
  /-- The names; a file's id is its index. -/
  names : Array String
deriving DecidableEq, Repr, Inhabited

namespace FileTable

def empty : FileTable := ⟨#[]⟩

/-- Registers a file under the next free id. -/
def insert (files : FileTable) (name : String) : FileId × FileTable :=
  (⟨files.names.size.toUInt32⟩, ⟨files.names.push name⟩)

/-- The table with exactly these files. -/
def ofList (names : List String) : FileTable := ⟨names.toArray⟩

/-- The name of a file; ids that were never given out have a fixed one. -/
def name (files : FileTable) (file : FileId) : String :=
  files.names[file.index.toNat]?.getD "<unknown>"

end FileTable

/-- A stretch of source text, first and last character included. -/
structure Span where
  file : FileId
  first : Position
  last : Position
deriving DecidableEq, Repr, Inhabited

namespace Span

/-- The stretch that holds one place only. -/
def point (file : FileId) (p : Position) : Span := ⟨file, p, p⟩

/-- The place where a span begins, as a span. -/
def toFirst (s : Span) : Span := point s.file s.first

/-- From the begin of `s` to the end of `t`, in the file of `s`. -/
def join (s t : Span) : Span := ⟨s.file, s.first, t.last⟩

/-- The span with the name of its file in front. -/
def render (files : FileTable) (s : Span) : String :=
  let place := files.name s.file ++ ":" ++ s.first.text
  if s.first = s.last then place
  else if s.first.row = s.last.row then place ++ "-" ++ toString s.last.column.toNat
  else place ++ "-" ++ s.last.text

end Span

end WhileLang
