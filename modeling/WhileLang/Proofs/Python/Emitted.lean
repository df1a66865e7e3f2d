import WhileLang.Proofs.Parser.Whole
import WhileLang.Proofs.Python.Layout
import WhileLang.Proofs.Target.Names
import WhileLang.Proofs.Target.Resolved

/-!
# `WhileLang/Proofs/Python/Emitted.lean` — the lines of a program compiled to Python

A program whose variables are all resolved has Python code, and its lines have the depths and the
tokens listed here. Nothing but the depths says where a loop ends; **they are enough to get the
blocks back** (`Program.blockTokens_code`), because the body of a loop stands one level deeper than
the loop and is never without a line.
-/

set_option autoImplicit false

namespace WhileLang

/-! ## The tokens of a tree -/

def UnaryOp.pySign : UnaryOp → Python.Sign
  | .plus => .op .add
  | .neg => .op .sub
  | .not => .not

def Expr.pyTokens (ann : Annotations) : Expr → List Python.Token
  | .binary _ op l r =>
    .sign .parenL :: (l.pyTokens ann ++ .sign (.op op) :: (r.pyTokens ann ++ [.sign .parenR]))
  | .unary _ op e => .sign op.pySign :: .sign .parenL :: (e.pyTokens ann ++ [.sign .parenR])
  | .bool _ b => [.keyword (if b then .true else .false)]
  | .int _ v =>
    if v < 0 then [.sign (.op .sub), .number v.toInt.natAbs] else [.number v.toInt.natAbs]
  | .var n s => [.name (ann.targetName n.id s.name)]
  | .hole _ => []

/-- The lines of a block at this depth. A body that is empty has one line. -/
def Block.pyRows (ann : Annotations) (depth : Nat) : Block → Python.Rows
  | .done => []
  | .declare d rest =>
    (depth, .name (Target.varName d.symbol.name d.decl) :: .sign .assign :: d.init.pyTokens ann) ::
      rest.pyRows ann depth
  | .assign a rest =>
    (depth, .name (ann.targetName a.node.id a.symbol.name) :: .sign .assign ::
      a.value.pyTokens ann) :: rest.pyRows ann depth
  | .loop w body rest =>
    (depth, .keyword .while :: (w.cond.pyTokens ann ++ [.sign .colon])) ::
      ((if body.isEmpty then [(depth + 1, [.keyword .pass])] else []) ++
        body.pyRows ann (depth + 1) ++ rest.pyRows ann depth)

/-- The tokens of a block, with those for the ends of lines and for blocks. -/
def Block.pyTokens (ann : Annotations) : Block → List Python.Token
  | .done => []
  | .declare d rest =>
    .name (Target.varName d.symbol.name d.decl) :: .sign .assign ::
      (d.init.pyTokens ann ++ .newline :: rest.pyTokens ann)
  | .assign a rest =>
    .name (ann.targetName a.node.id a.symbol.name) :: .sign .assign ::
      (a.value.pyTokens ann ++ .newline :: rest.pyTokens ann)
  | .loop w body rest =>
    .keyword .while :: (w.cond.pyTokens ann ++ .sign .colon :: .newline :: .indent ::
      ((if body.isEmpty then [.keyword .pass, .newline] else []) ++
        body.pyTokens ann ++ .dedent :: rest.pyTokens ann))

/-- The argument of the call that prints a result of type `ty`. -/
def pyPrintedTokens (ty : Ty) (result : List Python.Token) : List Python.Token :=
  if ty = .bool then
    .string ['t', 'r', 'u', 'e'] :: .keyword .if ::
      (result ++ [.keyword .else, .string ['f', 'a', 'l', 's', 'e']])
  else result

/-- The last line of a program. -/
def pyPrintTokens (ty : Ty) (result : List Python.Token) : List Python.Token :=
  .keyword .print :: .sign .parenL :: (pyPrintedTokens ty result ++ [.sign .parenR])

def Program.pyRows (ann : Annotations) (p : Program) : Python.Rows :=
  p.body.pyRows ann 0 ++ [(0, pyPrintTokens (ann.tyOf p.result) (p.result.pyTokens ann))]

def Program.pyTokens (ann : Annotations) (p : Program) : List Python.Token :=
  p.body.pyTokens ann ++
    (pyPrintTokens (ann.tyOf p.result) (p.result.pyTokens ann) ++ [.newline])

end WhileLang

namespace WhileLang.Python.Reads

variable {rest : List Char} {ts : List Token}

/-! ## Signs -/

/-- An operator between blanks. -/
theorem binary (op : BinaryOp) (h : Reads rest ts) :
    Reads (' ' :: ((Target.python.binary op).toList ++ ' ' :: rest)) (.sign (.op op) :: ts) := by
  have hb := h.space
  apply blank (by decide)
  cases op with
  | and =>
    exact hb.word (c := 'a') (by decide) (List.all_eq_true.1 (by decide)) (.cons (by decide) _)
  | or =>
    exact hb.word (c := 'o') (by decide) (List.all_eq_true.1 (by decide)) (.cons (by decide) _)
  | eq => exact of_first '=' ['='] (some (.sign (.op .eq))) rfl hb
  | ne => exact of_first '!' ['='] (some (.sign (.op .ne))) rfl hb
  | le => exact of_first '<' ['='] (some (.sign (.op .le))) rfl hb
  | ge => exact of_first '>' ['='] (some (.sign (.op .ge))) rfl hb
  | lt => exact of_first '<' [] (some (.sign (.op .lt))) rfl hb
  | gt => exact of_first '>' [] (some (.sign (.op .gt))) rfl hb
  | add => exact of_first '+' [] (some (.sign (.op .add))) rfl hb
  | sub => exact of_first '-' [] (some (.sign (.op .sub))) rfl hb
  | mul => exact of_first '*' [] (some (.sign (.op .mul))) rfl hb

/-- An operator before a parenthesis. -/
theorem unary (op : UnaryOp) (h : Reads ('(' :: rest) ts) :
    Reads ((Target.python.unary op).toList ++ '(' :: rest) (.sign op.pySign :: ts) := by
  cases op with
  | plus => exact of_first '+' [] (some (.sign (.op .add))) rfl h
  | neg => exact of_first '-' [] (some (.sign (.op .sub))) rfl h
  | not =>
    exact h.word (c := 'n') (by decide) (List.all_eq_true.1 (by decide)) (.cons (by decide) _)

/-! ## Names and constants -/

theorem name {x : String} (hx : IsName x) (d : DeclId) (hs : Stops rest) (h : Reads rest ts) :
    Reads ((Target.varName x d).toList ++ rest) (.name (Target.varName x d) :: ts) := by
  have hword : ∀ a ∈ '_' :: (x.toList ++ '_' :: d.text.toList), isNameChar a = true := by
    intro a ha
    simpa [isNameChar] using Target.of_mem_varName hx ha
  have hfree : reserved.lookup (Target.varName x d) = none :=
    Target.lookup_varName (List.all_eq_true.1 (by decide)) x d
  have hr := h.word (by decide) hword hs
  rwa [← Target.toList_varName, String.ofList_toList, Token.ofWord, hfree] at hr

/-- A minus sign before a digit is not made longer. -/
theorem minus (n : Nat) (h : Reads (Nat.toDigits 10 n ++ rest) ts) :
    Reads ('-' :: (Nat.toDigits 10 n ++ rest)) (.sign (.op .sub) :: ts) := by
  obtain ⟨d, more, hcs, hd⟩ := exists_toDigits_eq_cons n
  have hne : ∀ c, c.isDigit = false → (c == d) = false := fun c =>
    beq_eq_false_of_isDigit (hd d (List.mem_cons_self ..))
  have hblank : isBlank '-' = false := by decide
  have hword : isNameChar '-' = false := by decide
  rw [hcs] at h ⊢
  refine of_first '-' [] (some (.sign (.op .sub))) ?_ h
  simp [first, hblank, hword, signs, List.isPrefixOf, hne]

theorem int (v : Int64) (hs : Stops rest) (h : Reads rest ts) :
    Reads ((Target.python.int v).toList ++ rest)
      ((if v < 0 then [.sign (.op .sub), .number v.toInt.natAbs] else [.number v.toInt.natAbs]) ++
        ts) := by
  rw [Target.int, toList_toString_int64]
  split
  · exact (h.number _ hs).minus _
  · exact h.number _ hs

end WhileLang.Python.Reads

namespace WhileLang

/-! ## Expressions -/

/-- An expression whose variables are resolved has code, which falls into its tokens. -/
theorem Expr.python_reads {ann : Annotations} {e : Expr} (hw : e.Whole) (hr : e.Resolved ann) :
    ∃ text, e.code .python ann = .ok text ∧ ∀ rest ts, Python.Stops rest → Python.Reads rest ts →
      Python.Reads (text.toList ++ rest) (e.pyTokens ann ++ ts) := by
  induction e with
  | binary n op l r ihl ihr =>
    obtain ⟨a, ha, hra⟩ := ihl hw.1 hr.1
    obtain ⟨b, hb, hrb⟩ := ihr hw.2 hr.2
    refine ⟨"(" ++ a ++ " " ++ Target.python.binary op ++ " " ++ b ++ ")", ?_, ?_⟩
    · rw [code, ha, hb]
      rfl
    · intro rest ts _ h
      have hend := h.parenR
      have hop := (hrb _ _ (.cons (by decide) _) hend).binary op
      have hall := (hra _ _ (.cons (by decide) _) hop).parenL
      simpa [pyTokens] using hall
  | unary n op e ih =>
    obtain ⟨a, ha, hra⟩ := ih hw hr
    refine ⟨Target.python.unary op ++ "(" ++ a ++ ")", ?_, ?_⟩
    · rw [code, ha]
      rfl
    · intro rest ts _ h
      have hend := h.parenR
      have hinner := (hra _ _ (.cons (by decide) _) hend).parenL
      simpa [pyTokens] using hinner.unary op
  | bool n b =>
    refine ⟨_, rfl, ?_⟩
    intro rest ts hs h
    cases b
    · exact h.keyword (k := .false) (by decide) hs
    · exact h.keyword (k := .true) (by decide) hs
  | int n v => exact ⟨_, rfl, fun rest ts hs h => h.int v hs⟩
  | var n s =>
    obtain ⟨d, hd⟩ := hr
    refine ⟨Target.varName s.name d, ann.varName_eq_ok hd s.name, ?_⟩
    intro rest ts hs h
    rw [pyTokens, ann.targetName_eq hd]
    exact h.name hw d hs
  | hole n => exact hw.elim

/-! ## Lines -/

/-- A line with a name, an assignment sign and a value. -/
theorem Line.isRow_assign {x : String} (hx : IsName x) (d : DeclId) {ann : Annotations} {e : Expr}
    {text : String} (he : ∀ rest ts, Python.Stops rest → Python.Reads rest ts →
      Python.Reads (text.toList ++ rest) (e.pyTokens ann ++ ts)) (depth : Nat) :
    Line.IsRow ⟨depth, Target.python.assign (Target.varName x d) text⟩
      (depth, .name (Target.varName x d) :: .sign .assign :: e.pyTokens ann) where
  depth_eq := rfl
  reads := by
    have hvalue := he [] [] .nil .nil
    have hsign := Python.Reads.of_first '=' [] (some (.sign .assign)) rfl hvalue.space
    simpa [Target.assign] using hsign.space.name hx d (.cons (by decide) _)
  starts := by
    rw [Target.assign, String.toList_append, String.toList_append, Target.toList_varName]
    exact .cons (by decide) _
  ne_nil := by simp

theorem Line.isRow_while {ann : Annotations} {e : Expr} {text : String}
    (he : ∀ rest ts, Python.Stops rest → Python.Reads rest ts →
      Python.Reads (text.toList ++ rest) (e.pyTokens ann ++ ts)) (depth : Nat) :
    Line.IsRow ⟨depth, Target.python.loopHead text⟩
      (depth, .keyword .while :: (e.pyTokens ann ++ [.sign .colon])) where
  depth_eq := rfl
  reads := by
    have hcolon := Python.Reads.of_first ':' [] (some (.sign .colon)) rfl .nil
    have hcond := he _ _ (.cons (by decide) _) hcolon
    have hall := hcond.space.keyword (k := .while) (by decide) (.cons (by decide) _)
    simpa [Target.loopHead, Python.Keyword.text] using hall
  starts := by
    rw [Target.loopHead, String.toList_append, String.toList_append]
    exact .cons (by decide) _
  ne_nil := by simp

theorem Line.isRow_pass (depth : Nat) : Line.IsRow ⟨depth, "pass"⟩ (depth, [.keyword .pass]) where
  depth_eq := rfl
  reads := by
    have hall := Python.Reads.nil.keyword (k := .pass) (by decide) .nil
    simpa [Python.Keyword.text] using hall
  starts := by
    have htext : "pass".toList = ['p', 'a', 's', 's'] := rfl
    rw [htext]
    exact .cons (by decide) _
  ne_nil := by simp

theorem Target.toList_python_print_bool (e : String) : (Target.python.print .bool e).toList =
    "print".toList ++ '(' :: '"' :: ("true\"".toList ++ ' ' :: ("if".toList ++ ' ' ::
      (e.toList ++ ' ' :: ("else".toList ++ ' ' :: '"' :: "false\")".toList)))) := by
  have hprint : Target.python.print .bool e = "print(\"true\" if " ++ e ++ " else \"false\")" := rfl
  rw [hprint, String.toList_append, String.toList_append, List.append_assoc]
  rfl

theorem Target.toList_python_print_of_ne {ty : Ty} (hty : ty ≠ .bool) (e : String) :
    (Target.python.print ty e).toList = "print".toList ++ '(' :: (e.toList ++ [')']) := by
  have hprint : Target.python.print ty e = "print(" ++ e ++ ")" := by
    cases ty with
    | bool => exact absurd rfl hty
    | int => rfl
    | unknown => rfl
  rw [hprint, String.toList_append, String.toList_append, List.append_assoc]
  rfl

/-- The call that prints the result. -/
theorem Line.isRow_print (ty : Ty) {ann : Annotations} {e : Expr} {text : String}
    (he : ∀ rest ts, Python.Stops rest → Python.Reads rest ts →
      Python.Reads (text.toList ++ rest) (e.pyTokens ann ++ ts)) :
    Line.IsRow ⟨0, Target.python.print ty text⟩ (0, pyPrintTokens ty (e.pyTokens ann)) where
  depth_eq := rfl
  reads := by
    have hclose := Python.Reads.nil.parenR
    by_cases hty : ty = .bool
    · subst hty
      have hno := Python.Reads.of_first '"' ['f', 'a', 'l', 's', 'e', '"']
        (some (.string ['f', 'a', 'l', 's', 'e'])) rfl hclose
      have helse := hno.space.keyword (k := .else) (by decide) (.cons (by decide) _)
      have hcond := he _ _ (.cons (by decide) _) helse.space
      have hif := hcond.space.keyword (k := .if) (by decide) (.cons (by decide) _)
      have hyes := Python.Reads.of_first '"' ['t', 'r', 'u', 'e', '"']
        (some (.string ['t', 'r', 'u', 'e'])) rfl hif.space
      have hall := hyes.parenL.keyword (k := .print) (by decide) (.cons (by decide) _)
      rw [pyPrintTokens, pyPrintedTokens, if_pos rfl, Target.toList_python_print_bool]
      simp only [List.cons_append, List.append_assoc, List.nil_append]
      exact hall
    · have harg := he _ _ (.cons (by decide) _) hclose
      have hall := harg.parenL.keyword (k := .print) (by decide) (.cons (by decide) _)
      rw [pyPrintTokens, pyPrintedTokens, if_neg hty, Target.toList_python_print_of_ne hty]
      exact hall
  starts := by
    by_cases hty : ty = .bool
    · rw [hty, Target.toList_python_print_bool]
      exact .cons (by decide) _
    · rw [Target.toList_python_print_of_ne hty]
      exact .cons (by decide) _
  ne_nil := by simp [pyPrintTokens]

/-! ## Statements -/

/-- A block whose variables are resolved has code, with these lines. -/
theorem Block.python_rows {ann : Annotations} {b : Block} (hw : b.Whole) (hr : b.Resolved ann)
    (depth : Nat) : ∃ lines, b.code .python ann depth = .ok lines ∧
      List.Forall₂ Line.IsRow lines (b.pyRows ann depth) := by
  induction b generalizing depth with
  | done => exact ⟨[], rfl, .nil⟩
  | declare d rest ih =>
    obtain ⟨hwi, -, hx, hwr⟩ := hw
    obtain ⟨init, hinit, hri⟩ := Expr.python_reads hwi hr.1
    obtain ⟨lines, hlines, hrr⟩ := ih hwr hr.2 depth
    refine ⟨⟨depth, Target.python.assign (Target.varName d.symbol.name d.decl) init⟩ :: lines, ?_,
      .cons (Line.isRow_assign hx d.decl hri depth) hrr⟩
    rw [code, Declaration.code, hinit, hlines]
    simp [bind, Except.bind, Target.declarator]
  | assign a rest ih =>
    obtain ⟨hwv, hx, hwr⟩ := hw
    obtain ⟨hrv, ⟨d, hd⟩, hrr⟩ := hr
    obtain ⟨value, hvalue, hrv⟩ := Expr.python_reads hwv hrv
    obtain ⟨lines, hlines, hrr⟩ := ih hwr hrr depth
    rw [pyRows, ann.targetName_eq hd]
    refine ⟨⟨depth, Target.python.assign (Target.varName a.symbol.name d) value⟩ :: lines, ?_,
      .cons (Line.isRow_assign hx d hrv depth) hrr⟩
    rw [code, Assignment.code, hvalue, hlines]
    simp [bind, Except.bind, ann.varName_eq_ok hd]
  | loop w body rest ihb ihr =>
    obtain ⟨cond, hcond, hrc⟩ := Expr.python_reads hw.1 hr.1
    obtain ⟨inner, hinner, hrb⟩ := ihb hw.2.1 hr.2.1 (depth + 1)
    obtain ⟨lines, hlines, hrr⟩ := ihr hw.2.2 hr.2.2 depth
    have hbegin : List.Forall₂ Line.IsRow (Target.python.bodyBegin (depth + 1) body)
        (if body.isEmpty then [(depth + 1, [.keyword .pass])] else []) := by
      cases hempty : body.isEmpty with
      | true => simp [Target.bodyBegin, hempty, Line.isRow_pass]
      | false => simp [Target.bodyBegin, hempty]
    refine ⟨⟨depth, Target.python.loopHead cond⟩ :: Target.python.bodyBegin (depth + 1) body ++
      inner ++ lines, ?_, ?_⟩
    · rw [code, hcond, hinner, hlines]
      simp [bind, Except.bind, Target.loopEnd]
    · exact .cons (Line.isRow_while hrc depth)
        (List.rel_append (List.rel_append hbegin hrb) hrr)

/-- **The lines of a block have its tokens**, and whatever comes after the block goes on at its
depth. -/
theorem Block.lays_pyRows {w : Nat → Python.Width} (hw : Python.Widens w)
    (ann : Annotations) (b : Block) {depth : Nat} {rest : Python.Rows} {ts : List Python.Token}
    (h : Python.Lays w depth rest ts) :
    Python.Lays w depth (b.pyRows ann depth ++ rest) (b.pyTokens ann ++ ts) := by
  induction b generalizing depth rest ts with
  | done => exact h
  | declare d tail ih =>
    have hall := (ih h).row hw
      (.name (Target.varName d.symbol.name d.decl) :: .sign .assign :: d.init.pyTokens ann)
    simpa [pyRows, pyTokens] using hall
  | assign a tail ih =>
    have hall := (ih h).row hw
      (.name (ann.targetName a.node.id a.symbol.name) :: .sign .assign :: a.value.pyTokens ann)
    simpa [pyRows, pyTokens] using hall
  | loop head body tail ihb ihr =>
    have htail := (ihr h).dedent
    have hbody := ihb htail
    -- the body has a first line, which begins the block
    obtain ⟨line, rs, hrs, hinner⟩ : ∃ line rs,
        (if body.isEmpty then [(depth + 1, [.keyword .pass])] else []) ++
          body.pyRows ann (depth + 1) ++ (tail.pyRows ann depth ++ rest) =
            (depth + 1, line) :: rs ∧
        Python.Lays w (depth + 1) ((depth + 1, line) :: rs)
          ((if body.isEmpty then [.keyword .pass, .newline] else []) ++ body.pyTokens ann ++
            .dedent :: (tail.pyTokens ann ++ ts)) := by
      cases body with
      | done => exact ⟨_, _, rfl, htail.row hw [.keyword .pass]⟩
      | declare | assign | loop => exact ⟨_, _, rfl, hbody⟩
    have hall := hinner.block hw (.keyword .while :: (head.cond.pyTokens ann ++ [.sign .colon]))
    rw [← hrs] at hall
    simpa [pyRows, pyTokens] using hall

/-! ## Programs -/

/-- **A program whose variables are resolved has code, with the lines of the program**, whatever
blanks the indent is made of. -/
theorem Program.rows_code {ann : Annotations} {indent : Indent}
    (hi : ∀ c ∈ indent.unit.toList, Python.isBlank c = true) {p : Program} (hw : p.Whole)
    (hb : p.body.Resolved ann) (hr : p.result.Resolved ann) :
    ∃ text, p.code .python ann indent = .ok text ∧
      Python.rows text.toList = some ((p.pyRows ann).atWidths indent.pyWidth) := by
  obtain ⟨lines, hlines, hbody⟩ := Block.python_rows hw.1 hb 0
  obtain ⟨result, hresult, hread⟩ := Expr.python_reads hw.2 hr
  have hprint := Line.isRow_print (ann.tyOf p.result) hread
  refine ⟨Line.renderAll indent (lines ++ [⟨0, Target.python.print (ann.tyOf p.result) result⟩]),
    ?_, ?_⟩
  · rw [code, codeLines, Target.bodyDepth, hlines, hresult]
    simp [bind, Except.bind, Target.preamble, Target.epilogue, pure, Except.pure]
  · rw [Line.toList_renderAll]
    exact Python.rows_chars hi (List.rel_append hbody (.cons hprint .nil))

/-- **The blocks of the lines are those of the program**, if the indent is not empty. -/
theorem Program.blockTokens_code {ann : Annotations} {indent : Indent} (hi : indent.PyBlank)
    {p : Program} (hw : p.Whole) (hb : p.body.Resolved ann) (hr : p.result.Resolved ann) :
    ∃ text, p.code .python ann indent = .ok text ∧
      Python.blockTokens text.toList = some (p.pyTokens ann) := by
  obtain ⟨text, hcode, hrows⟩ := Program.rows_code hi.2 hw hb hr
  have hlast := Python.Lays.nil.row (Indent.widens_pyWidth hi)
    (pyPrintTokens (ann.tyOf p.result) (p.result.pyTokens ann))
  have hlays := p.body.lays_pyRows (Indent.widens_pyWidth hi) ann hlast
  exact ⟨text, hcode, Python.blockTokens_of_rows hrows hlays⟩

end WhileLang
