/-!
# `WhileLang/CommandLine/Path.lean` — paths as written

A path is names with slashes between them. Empty names and dots stay where they are, and are of no
account **except the first**: an empty first name stands for the root, and a first dot is kept as
written. What is derived from a path is a beginning of it, letter by letter.
-/

set_option autoImplicit false

namespace WhileLang

namespace Path

/-- The names of a path, in order. -/
def names (path : String) : List String := path.splitOn "/"

/-- Whether a name stands for the directory it is looked up in. -/
def stays (name : String) : Bool := name = "" || name = "."

def isAbsolute (path : String) : Bool := path.front = '/'

/-- The path with a first name and further names, the last of them first. -/
def join (lead : String) (rest : List String) : String :=
  if lead = "" ∧ rest = [] then "/" else "/".intercalate (lead :: rest.reverse)

/-- The path with a first name and further names, the last of them first, and the directories it
lies in, nearest first; names that stay are of no account at the end of a path. -/
def upward (lead : String) : List String → List String
  | [] => [join lead []]
  | name :: rest =>
    if stays name then upward lead rest else join lead (name :: rest) :: upward lead rest

/-- The directories that a path lies in, nearest first, as far as they are written in it. -/
def above (path : String) : List String :=
  match names path with
  | [] => []
  | lead :: rest => (upward lead rest.reverse).tail

end Path

end WhileLang
