import WhileLang.Diagnostic.Basic

/-!
# `WhileLang/Diagnostic/Log.lean` — the diagnostics of one run, in the order of their finding

The log only grows, and only at its end. Counts are read off the entries, so they cannot disagree
with them; notes are not counted, since they belong to another line.
-/

set_option autoImplicit false

namespace WhileLang

/-- The diagnostics of one run, oldest first. -/
structure Log where
  entries : Array Diagnostic
deriving DecidableEq, Repr, Inhabited

namespace Log

def empty : Log := ⟨#[]⟩

/-- The entries as a list, oldest first. -/
def toList (log : Log) : List Diagnostic := log.entries.toList

def push (log : Log) (d : Diagnostic) : Log := ⟨log.entries.push d⟩

/-- Adds entries at the end, in their order. -/
def append (log : Log) (ds : List Diagnostic) : Log := ds.foldl push log

def isEmpty (log : Log) : Bool := log.entries.isEmpty

def size (log : Log) : Nat := log.entries.size

def errorCount (log : Log) : Nat :=
  log.toList.countP fun d => d.severity = .error

/-- The number of errors of one kind. -/
def countOf (log : Log) (kind : DiagnosticKind) : Nat :=
  log.toList.countP fun d => d.severity = .error ∧ d.kind = kind

/-- All entries, with newlines between them. -/
def render (log : Log) (files : FileTable) : String :=
  "\n".intercalate (log.toList.map (·.render files))

@[simp] theorem toList_empty : empty.toList = [] := rfl

@[simp] theorem toList_push (log : Log) (d : Diagnostic) :
    (log.push d).toList = log.toList ++ [d] := by
  simp [toList, push]

@[simp] theorem toList_append (log : Log) (ds : List Diagnostic) :
    (log.append ds).toList = log.toList ++ ds := by
  induction ds generalizing log with
  | nil => simp [append]
  | cons d ds ih =>
    have h := ih (log.push d)
    simpa [append] using h

theorem ext_toList {a b : Log} (h : a.toList = b.toList) : a = b := by
  cases a; cases b
  simpa [toList, Array.toList_inj] using h

end Log

end WhileLang
