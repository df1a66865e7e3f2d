import WhileLang.Proofs.C.Parsed
import WhileLang.Proofs.Target.Renamed

/-!
# `WhileLang/Proofs/C/Scoping.lean` — which declaration a name means in C

In C a name is in scope **from its declarator on**, so its own first value can see it already, until
the brace that ends the block. Among those in scope it is the latest of the innermost block that is
meant. Here this is said of a program that was read (`C.Code.mentions`), without reference to what
it was compiled from.

A compiled program has the blocks of its source, and a name for each of the source. **C finds for
every use the declaration that the source means** (`Program.Valid.inC_mentions`). That its scope is
larger in one place than that of the source does no harm: what it has besides is called otherwise.
-/

set_option autoImplicit false

namespace WhileLang.C

/-! ## Names -/

def Term.names : Term → List String
  | .constant _ _ => []
  | .var x => [x]
  | .unary _ e => e.names
  | .binary _ l r => l.names ++ r.names
  | .cast _ e => e.names

def Printed.names : Printed → List String
  | .format _ arguments => arguments.flatMap Term.names
  | .choice cond _ _ => cond.names

/-- A name that stands in a program. -/
inductive Mention where
  | declares (address : Address) (name : String)
  /-- It is read or assigned to. The declaration that it means is at this address, if any. -/
  | uses (address : Address) (name : String) (declaration : Option Address)
deriving DecidableEq, Repr

/-! ## Scopes -/

/-- The names declared so far in each of the open blocks, with the addresses of their declarations:
the innermost block first, and in each block the latest name. -/
abbrev Scope := List (List (String × Address))

namespace Scope

def declare (x : String) (a : Address) : Scope → Scope
  | [] => [[(x, a)]]
  | frame :: frames => ((x, a) :: frame) :: frames

def find? (scope : Scope) (x : String) : Option Address :=
  scope.findSome? (·.lookup x)

/-- The names of a term that stands at this address. -/
def uses (scope : Scope) (a : Address) (names : List String) : List Mention :=
  names.map fun x => .uses a x (scope.find? x)

end Scope

/-- The names in statements the first of which has the index `n`, in the order in which they are
written. -/
def Code.mentions (outer : Address) : Scope → Nat → Code → List Mention
  | _, _, .done => []
  | scope, n, .declare _ x init rest =>
    let scope := scope.declare x (outer ++ [n])
    .declares (outer ++ [n]) x ::
      (scope.uses (outer ++ [n]) init.names ++ rest.mentions outer scope (n + 1))
  | scope, n, .assign x value rest =>
    scope.uses (outer ++ [n]) (x :: value.names) ++ rest.mentions outer scope (n + 1)
  | scope, n, .loop cond body rest =>
    scope.uses (outer ++ [n]) cond.names ++ (body.mentions (outer ++ [n]) ([] :: scope) 0 ++
      rest.mentions outer scope (n + 1))
  | scope, n, .print printed rest =>
    scope.uses (outer ++ [n]) printed.names ++ rest.mentions outer scope (n + 1)

/-- The names in the statements of `main`, which are in the outermost block. -/
def Main.mentions (main : Main) : List Mention := main.body.mentions [] [[]] 0

end WhileLang.C

namespace WhileLang

/-! ## The names of compiled terms -/

theorem names_intTerm (v : Int64) : (intTerm v).names = [] := by
  unfold intTerm
  split
  · rfl
  · split <;> rfl

theorem Expr.names_cTerm (ann : Annotations) (e : Expr) :
    (e.cTerm ann).names = e.vars.map fun v => ann.targetName v.1 v.2.name := by
  induction e with
  | binary n op l r ihl ihr =>
    rw [vars_binary, List.map_append, ← ihl, ← ihr]
    rfl
  | unary n op e ih =>
    rw [vars_unary, ← ih]
    rfl
  | int n v => exact names_intTerm v
  | bool | var | hole => rfl

theorem names_cPrinted (ty : Ty) (result : C.Term) : (cPrinted ty result).names = result.names := by
  unfold cPrinted
  split
  · rfl
  · simp [C.Printed.names, C.Term.names]

/-- The name in C stands where the one of the source does and has the name of the declaration that
is meant; and if it is a use then C finds this declaration for it. -/
inductive Mention.InC (p : Program) : Mention → C.Mention → Prop
  | declares {a : Address} {d : Declaration} (h : (declares a d).Means p a d) :
    InC p (declares a d) (.declares a d.targetName)
  | uses {u : Use} {b : Address} {d : Declaration} (h : (uses u).Means p b d) :
    InC p (uses u) (.uses u.address d.targetName (some b))

/-! ## What a scope in C knows -/

namespace C.Scope

theorem flatten_declare (x : String) (a : Address) (scope : Scope) :
    (scope.declare x a).flatten = (x, a) :: scope.flatten := by
  cases scope <;> rfl

theorem mem_flatten_of_find? {scope : Scope} {x : String} {a : Address}
    (h : scope.find? x = some a) : (x, a) ∈ scope.flatten := by
  obtain ⟨frame, hframe, hlookup⟩ := List.exists_of_findSome?_eq_some h
  obtain ⟨before, after, rfl, -⟩ := List.lookup_eq_some_iff.1 hlookup
  exact List.mem_flatten.2 ⟨_, hframe, by simp⟩

theorem exists_find?_of_mem_flatten {scope : Scope} {entry : String × Address}
    (h : entry ∈ scope.flatten) : ∃ a, scope.find? entry.1 = some a := by
  obtain ⟨frame, hframe, hentry⟩ := List.mem_flatten.1 h
  cases hfind : scope.find? entry.1 with
  | some a => exact ⟨a, rfl⟩
  | none =>
    have hnone := List.findSome?_eq_none_iff.1 hfind frame hframe
    simpa using List.lookup_eq_none_iff.1 hnone entry hentry

end C.Scope

/-- All that is in scope in C was declared in the source, and these declarations are in scope. -/
structure C.Scope.Knows (p : Program) (known : List Declaration) (scope : C.Scope) : Prop where
  declared : ∀ entry ∈ scope.flatten,
    ∃ d, (entry.2, d) ∈ p.body.declared [] 0 ∧ d.targetName = entry.1
  covers : ∀ d ∈ known, ∃ entry ∈ scope.flatten, entry.1 = d.targetName

namespace C.Scope.Knows

variable {p : Program} {known known' : List Declaration} {scope : C.Scope}

theorem start (p : Program) : Knows p [] [[]] where
  declared := by simp
  covers := by simp

theorem of_subset (h : scope.Knows p known) (hsub : known' ⊆ known) : scope.Knows p known' :=
  ⟨h.declared, fun d hd => h.covers d (hsub hd)⟩

theorem push (h : scope.Knows p known) : Knows p known ([] :: scope) :=
  ⟨h.declared, h.covers⟩

theorem declare {a : Address} {d : Declaration} (h : scope.Knows p known)
    (hd : (a, d) ∈ p.body.declared [] 0) :
    (scope.declare d.targetName a).Knows p (d :: known) where
  declared := by
    rw [flatten_declare, List.forall_mem_cons]
    exact ⟨⟨d, hd, rfl⟩, h.declared⟩
  covers := by
    rw [flatten_declare, List.forall_mem_cons]
    refine ⟨⟨_, List.mem_cons_self .., rfl⟩, fun d' hd' => ?_⟩
    obtain ⟨entry, hentry, hname⟩ := h.covers d' hd'
    exact ⟨entry, List.mem_cons_of_mem _ hentry, hname⟩

/-- **What is found for a name is the one declaration that has it.** -/
theorem find?_eq (h : scope.Knows p known)
    (hdistinct : ((p.body.declared [] 0).map (·.2.decl.index)).Nodup) {b : Address}
    {d : Declaration} (hd : (b, d) ∈ p.body.declared [] 0) (hknown : d ∈ known) :
    scope.find? d.targetName = some b := by
  obtain ⟨entry, hentry, hname⟩ := h.covers d hknown
  obtain ⟨b', hfind⟩ := exists_find?_of_mem_flatten hentry
  rw [hname] at hfind
  obtain ⟨d', hd', hname'⟩ := h.declared _ (mem_flatten_of_find? hfind)
  obtain rfl : b' = b := Declaration.address_eq_of_targetName hdistinct hd' hd hname'
  exact hfind

end C.Scope.Knows

/-- On the way through the statements of the program, `b` is left of a list from index `n` on, and
the scope knows what stands before. -/
def C.Scope.At (p : Program) (outer : Address) (n : Nat) (b : Block) (scope : C.Scope) : Prop :=
  ∃ ds dss, p.body.Left outer n b ds dss ∧ scope.Knows p (ds :: dss).flatten

namespace C.Scope.At

variable {p : Program} {outer : Address} {n : Nat} {body rest : Block} {scope : C.Scope}

theorem start (p : Program) : At p [] 0 p.body [[]] :=
  ⟨[], [], .start p.body, .start p⟩

theorem knows {b : Block} (h : scope.At p outer n b) :
    scope.Knows p (p.body.before (outer ++ [n])).flatten := by
  obtain ⟨ds, dss, hleft, hknows⟩ := h
  rwa [hleft.before_eq]

theorem declare {d : Declaration} (h : scope.At p outer n (.declare d rest))
    (hd : (outer ++ [n], d) ∈ p.body.declared [] 0) :
    (scope.declare d.targetName (outer ++ [n])).At p outer (n + 1) rest := by
  obtain ⟨ds, dss, hleft, hknows⟩ := h
  exact ⟨ds ++ [d], dss, hleft.declare, (hknows.declare hd).of_subset (by simp)⟩

theorem assign {a : Assignment} (h : scope.At p outer n (.assign a rest)) :
    scope.At p outer (n + 1) rest := by
  obtain ⟨ds, dss, hleft, hknows⟩ := h
  exact ⟨ds, dss, hleft.assign, hknows⟩

theorem afterLoop {w : LoopHead} (h : scope.At p outer n (.loop w body rest)) :
    scope.At p outer (n + 1) rest := by
  obtain ⟨ds, dss, hleft, hknows⟩ := h
  exact ⟨ds, dss, hleft.afterLoop, hknows⟩

theorem inBody {w : LoopHead} (h : scope.At p outer n (.loop w body rest)) :
    At p (outer ++ [n]) 0 body ([] :: scope) := by
  obtain ⟨ds, dss, hleft, hknows⟩ := h
  exact ⟨[], ds :: dss, hleft.inBody, hknows.push⟩

end C.Scope.At

/-! ## What C finds for the names of a compiled program -/

variable {ann : Annotations} {p : Program} {scope : C.Scope}

/-- A use means to C what it means in the source if what stands before it is in scope. -/
theorem Mention.inC_uses (h : p.Valid ann) {u : Use} (hu : .uses u ∈ p.mentions)
    (hknows : scope.Knows p (p.body.before u.address).flatten) :
    (uses u).InC p (.uses u.address (ann.targetName u.node u.symbol.name)
      (scope.find? (ann.targetName u.node u.symbol.name))) := by
  obtain ⟨b, d, hmeans, hname⟩ := h.exists_means hu
  have hname : ann.targetName u.node u.symbol.name = d.targetName := hname
  cases hmeans with
  | uses hd hsees hprecedes =>
    obtain ⟨-, ds, hds, hmem⟩ := Block.of_visible_eq_some hsees
    have hfind := hknows.find?_eq h.nodup_declared hd (List.mem_flatten.2 ⟨ds, hds, hmem⟩)
    rw [hname, hfind]
    exact .uses (.uses hd hsees hprecedes)

theorem Expr.inC_mentions (h : p.Valid ann) {a : Address} {e : Expr}
    (he : e.mentions a ⊆ p.mentions) (hknows : scope.Knows p (p.body.before a).flatten) :
    List.Forall₂ (Mention.InC p) (e.mentions a) (scope.uses a (e.cTerm ann).names) := by
  rw [C.Scope.uses, names_cTerm, mentions, uses, List.map_map, List.map_map,
    List.forall₂_map_left_iff, List.forall₂_map_right_iff, List.forall₂_same]
  intro v hv
  have hmem : .uses ⟨a, v.1, v.2⟩ ∈ e.mentions a :=
    List.mem_map_of_mem (List.mem_map.2 ⟨v, hv, rfl⟩)
  exact Mention.inC_uses h (he hmem) hknows

/-- The names in a block and those in what comes after it, in a scope that knows what stands
before. -/
theorem Block.inC_mentions (h : p.Valid ann) {b : Block} {outer : Address} {n : Nat}
    {last : C.Code} {tail : List Mention} (hat : scope.At p outer n b)
    (hb : b.mentions outer n ⊆ p.mentions)
    (hlast : ∀ scope : C.Scope, scope.At p outer (n + b.ids.length) .done →
      List.Forall₂ (Mention.InC p) tail (last.mentions outer scope (n + b.ids.length))) :
    List.Forall₂ (Mention.InC p) (b.mentions outer n ++ tail)
      ((b.cCode ann last).mentions outer scope n) := by
  induction b generalizing outer n scope last tail with
  | done => exact hlast scope hat
  | declare d rest ih =>
    rw [mentions, List.cons_subset, List.append_subset] at hb
    obtain ⟨hd, hinit, hrest⟩ := hb
    have hd := Program.mem_declared_of_mem_mentions hd
    -- in C the first value sees the new name, which is not one of its own
    have hinit := Expr.inC_mentions h hinit
      ((hat.knows.declare hd).of_subset (List.subset_cons_self ..))
    have hrest := ih (hat.declare hd) hrest (by rwa [Nat.add_right_comm])
    rw [mentions, List.cons_append, List.append_assoc]
    exact .cons (.declares (.declares hd)) (List.rel_append hinit hrest)
  | assign a rest ih =>
    rw [mentions, List.cons_subset, List.append_subset] at hb
    obtain ⟨htarget, hvalue, hrest⟩ := hb
    have htarget := Mention.inC_uses h htarget hat.knows
    have hvalue := Expr.inC_mentions h hvalue hat.knows
    have hrest := ih hat.assign hrest (by rwa [Nat.add_right_comm])
    rw [mentions, List.cons_append, List.append_assoc]
    exact .cons htarget (List.rel_append hvalue hrest)
  | loop w body rest ihb ihr =>
    rw [mentions, List.append_subset, List.append_subset] at hb
    obtain ⟨hcond, hbody, hrest⟩ := hb
    have hcond := Expr.inC_mentions h hcond hat.knows
    have hbody : List.Forall₂ (Mention.InC p) (body.mentions (outer ++ [n]) 0 ++ [])
        ((body.cCode ann .done).mentions (outer ++ [n]) ([] :: scope) 0) :=
      ihb hat.inBody hbody fun _ _ => .nil
    have hrest := ihr hat.afterLoop hrest (by rwa [Nat.add_right_comm])
    rw [List.append_nil] at hbody
    rw [mentions, List.append_assoc, List.append_assoc]
    exact List.rel_append hcond (List.rel_append hbody hrest)

/-- **C finds the declarations that the source means.** The names in the C program are those of the
source one for one, each where it stood, with the name that its declaration has. -/
theorem Program.Valid.inC_mentions (h : p.Valid ann) :
    List.Forall₂ (Mention.InC p) p.mentions (p.cMain ann).mentions := by
  have hsub : p.body.mentions [] 0 ⊆ p.mentions ∧
      p.result.mentions [p.body.ids.length] ⊆ p.mentions :=
    List.append_subset.1 (List.Subset.refl _)
  refine Block.inC_mentions h (.start p) hsub.1 fun scope hat => ?_
  have hknows := hat.knows
  rw [Nat.zero_add] at hknows ⊢
  have hresult := Expr.inC_mentions h hsub.2 hknows
  rw [C.Code.mentions, C.Code.mentions, names_cPrinted, List.append_nil]
  exact hresult

end WhileLang
