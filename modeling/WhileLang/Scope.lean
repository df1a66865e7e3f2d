import WhileLang.Tree.Basic
import WhileLang.Diagnostic.Log

/-!
# `WhileLang/Scope.lean` — which declaration a name means

A `ScopeTable` is a stack of frames, one for each open block, innermost first. A name means what
**the innermost frame that has it** says. Within a frame the first declaration of a name stays: a
second one is refused and the name goes on to mean the first. A frame outside may have the same
name; it is hidden as long as the inner frame is open.

The outermost frame is part of the type and cannot be closed. A missing symbol is neither declared
nor looked for: what is missing was complained about when it was read.
-/

set_option autoImplicit false

namespace WhileLang

/-- What is known of a variable. -/
structure DeclInfo where
  decl : DeclId
  name : String
  ty : Ty
  /-- Where its name stands in the declaration. -/
  span : Span
deriving DecidableEq, Repr

def Declaration.info (d : Declaration) : DeclInfo :=
  ⟨d.decl, d.symbol.name, d.ty, d.symbol.span⟩

/-- Why a name cannot be declared or used. -/
inductive ScopeFault where
  /-- The frame has the name already, since the declaration at `prior`. -/
  | redeclared (symbol : Symbol) (prior : Span)
  /-- No open frame has the name. -/
  | undeclared (symbol : Symbol)
deriving DecidableEq, Repr

def ScopeFault.diagnostic : ScopeFault → Diagnostic
  | .redeclared s prior =>
    (Diagnostic.error .redeclaration s.span
      ("identifier '" ++ s.name ++ "' already declared in this scope")).withNote prior
      ("previous declaration of '" ++ s.name ++ "' here")
  | .undeclared s => .error .undeclared s.span ("identifier '" ++ s.name ++ "' not found")

/-- The names declared in one block. -/
abbrev Frame := List (String × DeclInfo)

/-- The frames of the open blocks. -/
structure ScopeTable where
  inner : Frame
  /-- The other frames, from the inside out. -/
  outer : List Frame
deriving DecidableEq, Repr

namespace ScopeTable

def empty : ScopeTable := ⟨[], []⟩

instance : Inhabited ScopeTable := ⟨empty⟩

/-- All frames, from the inside out. -/
def frames (t : ScopeTable) : List Frame := t.inner :: t.outer

def push (t : ScopeTable) : ScopeTable := ⟨[], t.frames⟩

/-- Closes the innermost frame, unless it is the outermost one. -/
def pop (t : ScopeTable) : ScopeTable :=
  match t.outer with
  | [] => t
  | f :: fs => ⟨f, fs⟩

/-- What the innermost frame with this name says. -/
def lookup (t : ScopeTable) (name : String) : Option DeclInfo :=
  t.frames.findSome? fun f => f.lookup name

/-- Declares a name in the innermost frame. -/
def bind (t : ScopeTable) (symbol : Symbol) (info : DeclInfo) : Except ScopeFault ScopeTable :=
  if symbol.isError then .ok t
  else match t.inner.lookup symbol.name with
    | some prior => .error (.redeclared symbol prior.span)
    | none => .ok { t with inner := (symbol.name, info) :: t.inner }

/-- What a symbol means. A missing symbol means nothing, and that is no fault. -/
def find (t : ScopeTable) (symbol : Symbol) : Except ScopeFault (Option DeclInfo) :=
  if symbol.isError then .ok none
  else match t.lookup symbol.name with
    | some info => .ok (some info)
    | none => .error (.undeclared symbol)

def find? (t : ScopeTable) (symbol : Symbol) : Option DeclInfo :=
  match t.find symbol with
  | .ok info? => info?
  | .error _ => none

def useFaults (t : ScopeTable) (symbol : Symbol) : List Diagnostic :=
  match t.find symbol with
  | .ok _ => []
  | .error fault => [fault.diagnostic]

/-- The table after a declaration. One that is refused changes nothing. -/
def declare (t : ScopeTable) (d : Declaration) : ScopeTable :=
  match t.bind d.symbol d.info with
  | .ok t' => t'
  | .error _ => t

def declareFaults (t : ScopeTable) (d : Declaration) : List Diagnostic :=
  match t.bind d.symbol d.info with
  | .ok _ => []
  | .error fault => [fault.diagnostic]

end ScopeTable

end WhileLang
