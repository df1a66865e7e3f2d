/-!
# `WhileLang/Source/FileFault.lean` — why a file cannot be read or written

The causes that a path can be at fault for have names of their own. Each is reported with the text
and number under which operating systems know it; anything else is handed through with its text.
-/

set_option autoImplicit false

namespace WhileLang

/-- Why a file or directory cannot be used. -/
inductive FileFault where
  | notFound
  | alreadyExists
  /-- What should be a directory is a file. -/
  | notDirectory
  /-- What should be a file is a directory. -/
  | isDirectory
  | nameTooLong
  /-- A name holds the character that ends names. -/
  | nulInName
  | other (text : String)
deriving DecidableEq, Repr

def FileFault.message : FileFault → String
  | .notFound => "No such file or directory (os error 2)"
  | .alreadyExists => "File exists (os error 17)"
  | .notDirectory => "Not a directory (os error 20)"
  | .isDirectory => "Is a directory (os error 21)"
  | .nameTooLong => "File name too long (os error 36)"
  | .nulInName => "file name contained an unexpected NUL byte"
  | .other text => text

end WhileLang
