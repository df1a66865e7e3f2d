import WhileLang.Proofs.Python.Emitted
import WhileLang.Proofs.Target.Renamed

/-!
# `WhileLang/Proofs/Python/Names.lean` — the names in a program compiled to Python

Python has no declarations, and one scope for the whole text: an assignment makes the variable that
it names. So all depends on the names, and **every name in the text is that of the declaration which
the name of the source means** (`Program.Valid.inPython_names`). Nothing is asked of the blocks that
the lines form, nor that they form any.
-/

set_option autoImplicit false

namespace WhileLang

namespace Python

def Token.name? : Token → Option String
  | .name x => some x
  | _ => none

def Row.names (r : Row) : List String := r.tokens.filterMap Token.name?

end Python

/-- The name in Python is that of the declaration that is meant. -/
def Mention.InPython (p : Program) (m : Mention) (x : String) : Prop :=
  ∃ b d, m.Means p b d ∧ x = d.targetName

namespace Python.Rows

/-- The names in lines, whatever their depths are. -/
def names (rs : Rows) : List String := rs.flatMap fun r => r.2.filterMap Token.name?

theorem names_cons (depth : Nat) (ts : List Token) (rs : Rows) :
    names ((depth, ts) :: rs) = ts.filterMap Token.name? ++ rs.names :=
  List.flatMap_cons

theorem names_append (rs rs' : Rows) : names (rs ++ rs') = rs.names ++ rs'.names :=
  List.flatMap_append

theorem flatMap_names_atWidths (w : Nat → Width) (rs : Rows) :
    (rs.atWidths w).flatMap Row.names = rs.names := by
  simp [atWidths, names, List.flatMap_map, Row.names]

end Python.Rows

/-! ## The names of compiled lines -/

theorem Expr.names_pyTokens (ann : Annotations) (a : Address) (e : Expr) :
    (e.pyTokens ann).filterMap Python.Token.name? = (e.mentions a).map (·.targetName ann) := by
  rw [map_targetName_mentions]
  induction e with
  | binary n op l r ihl ihr =>
    simp [pyTokens, vars_binary, List.filterMap_cons, Python.Token.name?, ihl, ihr]
  | unary n op e ih => simp [pyTokens, vars_unary, List.filterMap_cons, Python.Token.name?, ih]
  | int n v =>
    rw [pyTokens]
    split <;> rfl
  | bool | var | hole => rfl

/-- The names in a line that assigns. -/
theorem names_assigned (x : String) (ts : List Python.Token) :
    (Python.Token.name x :: .sign .assign :: ts).filterMap Python.Token.name? =
      x :: ts.filterMap Python.Token.name? := rfl

/-- The only names in a line that prints are those of what it prints. -/
theorem names_pyPrintTokens (ty : Ty) (ts : List Python.Token) :
    (pyPrintTokens ty ts).filterMap Python.Token.name? = ts.filterMap Python.Token.name? := by
  unfold pyPrintTokens pyPrintedTokens
  split <;> simp [List.filterMap_cons, Python.Token.name?]

/-- The names in the lines of a block are those that are written for its names. -/
theorem Block.names_pyRows (ann : Annotations) (outer : Address) (n depth : Nat) (b : Block) :
    (b.pyRows ann depth).names = (b.mentions outer n).map (·.targetName ann) := by
  induction b generalizing outer n depth with
  | done => rfl
  | declare d rest ih =>
    rw [pyRows, Python.Rows.names_cons, names_assigned, ih outer (n + 1),
      d.init.names_pyTokens ann (outer ++ [n]), mentions, List.map_cons, List.map_append]
    rfl
  | assign a rest ih =>
    rw [pyRows, Python.Rows.names_cons, names_assigned, ih outer (n + 1),
      a.value.names_pyTokens ann (outer ++ [n]), mentions, List.map_cons, List.map_append]
    rfl
  | loop w body rest ihb ihr =>
    have hhead : (Python.Token.keyword .while :: (w.cond.pyTokens ann ++ [.sign .colon])).filterMap
        Python.Token.name? = (w.cond.mentions (outer ++ [n])).map (·.targetName ann) := by
      rw [← w.cond.names_pyTokens]
      simp [List.filterMap_cons, Python.Token.name?]
    have hpass : Python.Rows.names
        (if body.isEmpty then [(depth + 1, [.keyword .pass])] else []) = [] := by
      split <;> rfl
    rw [pyRows, Python.Rows.names_cons, hhead, Python.Rows.names_append, Python.Rows.names_append,
      hpass, List.nil_append, ihb (outer ++ [n]) 0, ihr outer (n + 1), mentions, List.map_append,
      List.map_append]

/-- The names in the lines of a program are those that are written for its names. -/
theorem Program.names_pyRows (ann : Annotations) (p : Program) :
    (p.pyRows ann).names = p.mentions.map (·.targetName ann) := by
  have hresult := p.result.names_pyTokens ann [p.body.ids.length]
  rw [pyRows, Python.Rows.names_append, p.body.names_pyRows ann [] 0, Python.Rows.names_cons,
    names_pyPrintTokens, hresult, mentions, List.map_append]
  exact congrArg _ (List.append_nil _)

/-- **Every name in Python is that of the declaration which the name of the source means.** -/
theorem Program.Valid.inPython_names {ann : Annotations} {p : Program} (h : p.Valid ann) :
    List.Forall₂ (Mention.InPython p) p.mentions (p.pyRows ann).names := by
  rw [names_pyRows, List.forall₂_map_right_iff, List.forall₂_same]
  exact fun m hm => h.exists_means hm

end WhileLang
