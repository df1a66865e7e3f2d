import WhileLang.Proofs.C.Text
import WhileLang.Proofs.Parser.Whole
import WhileLang.Proofs.Target.Names
import WhileLang.Proofs.Target.Resolved
import WhileLang.Proofs.Tree.Canonical

/-!
# `WhileLang/Proofs/C/Emitted.lean` — the tokens of a program compiled to C

A program whose variables are all resolved has C code, and **the code falls into the tokens listed
here**, whatever the indent is made of, as long as C passes over it. Nothing in the list depends on
layout: it is the shape of the tree, with the parentheses that the compiler puts around every binary
operator and every operand of a unary one.
-/

set_option autoImplicit false

namespace WhileLang

/-! ## The tokens of a tree -/

def UnaryOp.cSign : UnaryOp → C.Sign
  | .plus => .op .add
  | .neg => .op .sub
  | .not => .not

/-- The least integer is written as a difference. -/
def intTokens (v : Int64) : List C.Token :=
  if v = Int64.minValue then
    [.sign .parenL, .sign (.op .sub), .number 9223372036854775807 "LL", .sign (.op .sub),
      .number 1 "", .sign .parenR]
  else if v < 0 then [.sign (.op .sub), .number v.toInt.natAbs ""]
  else [.number v.toInt.natAbs ""]

def Expr.cTokens (ann : Annotations) : Expr → List C.Token
  | .binary _ op l r =>
    .sign .parenL :: (l.cTokens ann ++ .sign (.op op) :: (r.cTokens ann ++ [.sign .parenR]))
  | .unary _ op e => .sign op.cSign :: .sign .parenL :: (e.cTokens ann ++ [.sign .parenR])
  | .bool _ b => [.keyword (if b then .true else .false)]
  | .int _ v => intTokens v
  | .var n s => [.name (ann.targetName n.id s.name)]
  | .hole _ => []

def Ty.cTokens : Ty → List C.Token
  | .int => [.keyword .long, .keyword .long]
  | .bool | .unknown => [.keyword .bool]

def Block.cTokens (ann : Annotations) : Block → List C.Token
  | .done => []
  | .declare d rest =>
    d.ty.cTokens ++ .name (Target.varName d.symbol.name d.decl) :: .sign .assign ::
      (d.init.cTokens ann ++ .sign .semicolon :: rest.cTokens ann)
  | .assign a rest =>
    .name (ann.targetName a.node.id a.symbol.name) :: .sign .assign ::
      (a.value.cTokens ann ++ .sign .semicolon :: rest.cTokens ann)
  | .loop w body rest =>
    .keyword .while :: .sign .parenL :: (w.cond.cTokens ann ++ .sign .parenR :: .sign .braceL ::
      (body.cTokens ann ++ .sign .braceR :: rest.cTokens ann))

/-- What is between the parentheses of the call that prints a result of type `ty`. -/
def printedTokens (ty : Ty) (result : List C.Token) : List C.Token :=
  if ty = .bool then
    result ++ [.sign .question, .string ['t', 'r', 'u', 'e', '\n'], .sign .colon,
      .string ['f', 'a', 'l', 's', 'e', '\n']]
  else
    .string ['%', 'l', 'l', 'd', '\n'] :: .sign .comma :: .sign .parenL :: .keyword .long ::
      .keyword .long :: .sign .parenR :: .sign .parenL :: (result ++ [.sign .parenR])

/-- The statements of `main` after those of the program. -/
def endTokens (ty : Ty) (result : List C.Token) : List C.Token :=
  .keyword .printf :: .sign .parenL :: (printedTokens ty result ++
    [.sign .parenR, .sign .semicolon, .keyword .return, .number 0 "", .sign .semicolon,
      .sign .braceR])

def Program.cTokens (ann : Annotations) (p : Program) : List C.Token :=
  [.directive "include <stdbool.h>", .directive "include <stdio.h>", .keyword .int, .name "main",
    .sign .parenL, .sign .parenR, .sign .braceL] ++ p.body.cTokens ann ++
    endTokens (ann.tyOf p.result) (p.result.cTokens ann)

end WhileLang

namespace WhileLang.C.Reads

variable {rest : List Char} {ts : List Token}

/-! ## Signs -/

theorem spaced {c : Char} {s : Sign}
    (hc : (c, s) ∈ [(':', Sign.colon), ('=', .assign), ('-', .op .sub)])
    (h : Reads rest ts) : Reads (c :: ' ' :: rest) (.sign s :: ts) := by
  have hb := h.space
  simp only [List.mem_cons, Prod.mk.injEq, List.not_mem_nil, or_false] at hc
  rcases hc with ⟨rfl, rfl⟩ | ⟨rfl, rfl⟩ | ⟨rfl, rfl⟩ <;>
    exact of_first _ [] (some (.sign _)) rfl hb

/-- An operator between blanks. -/
theorem binary (op : BinaryOp) (h : Reads rest ts) :
    Reads (' ' :: ((Target.c.binary op).toList ++ ' ' :: rest)) (.sign (.op op) :: ts) := by
  have hb := h.space
  apply blank (by decide)
  cases op with
  | and => exact of_first '&' ['&'] (some (.sign (.op .and))) rfl hb
  | or => exact of_first '|' ['|'] (some (.sign (.op .or))) rfl hb
  | eq => exact of_first '=' ['='] (some (.sign (.op .eq))) rfl hb
  | ne => exact of_first '!' ['='] (some (.sign (.op .ne))) rfl hb
  | le => exact of_first '<' ['='] (some (.sign (.op .le))) rfl hb
  | ge => exact of_first '>' ['='] (some (.sign (.op .ge))) rfl hb
  | lt => exact of_first '<' [] (some (.sign (.op .lt))) rfl hb
  | gt => exact of_first '>' [] (some (.sign (.op .gt))) rfl hb
  | add => exact of_first '+' [] (some (.sign (.op .add))) rfl hb
  | sub => exact of_first '-' [] (some (.sign (.op .sub))) rfl hb
  | mul => exact of_first '*' [] (some (.sign (.op .mul))) rfl hb

/-- An operator before a parenthesis. -/
theorem unary (op : UnaryOp) (h : Reads ('(' :: rest) ts) :
    Reads ((Target.c.unary op).toList ++ '(' :: rest) (.sign op.cSign :: ts) := by
  cases op <;> exact of_first _ [] (some (.sign _)) rfl h

/-! ## Names and constants -/

theorem name {x : String} (hx : IsName x) (d : DeclId) (hs : Stops rest) (h : Reads rest ts) :
    Reads ((Target.varName x d).toList ++ rest) (.name (Target.varName x d) :: ts) := by
  have hword : ∀ a ∈ '_' :: (x.toList ++ '_' :: d.text.toList), isWordChar a = true := by
    intro a ha
    simpa [isWordChar] using Target.of_mem_varName hx ha
  have hfree : keywords.lookup (Target.varName x d) = none :=
    Target.lookup_varName (List.all_eq_true.1 (by decide)) x d
  have hr := h.word (by decide) hword hs
  rwa [← Target.toList_varName, String.ofList_toList, Token.ofWord, hfree] at hr

theorem digits (n : Nat) (hs : Stops rest) (h : Reads rest ts) :
    Reads (Nat.toDigits 10 n ++ rest) (.number n "" :: ts) := by
  have hr := h.number n [] rfl hs
  rwa [List.append_nil] at hr

/-- A minus sign before a digit is not made longer. -/
theorem minus (n : Nat) (h : Reads (Nat.toDigits 10 n ++ rest) ts) :
    Reads ('-' :: (Nat.toDigits 10 n ++ rest)) (.sign (.op .sub) :: ts) := by
  obtain ⟨d, more, hcs, hd⟩ := exists_toDigits_eq_cons n
  have hne : ∀ c, c.isDigit = false → (c == d) = false := fun c =>
    beq_eq_false_of_isDigit (hd d (List.mem_cons_self ..))
  have hblank : isBlank '-' = false := by decide
  have hword : isWordChar '-' = false := by decide
  rw [hcs] at h ⊢
  refine of_first '-' [] (some (.sign (.op .sub))) ?_ h
  simp [first, hblank, hword, signs, List.isPrefixOf, hne]

theorem int (v : Int64) (hs : Stops rest) (h : Reads rest ts) :
    Reads ((Target.c.int v).toList ++ rest) (intTokens v ++ ts) := by
  rw [Target.int, intTokens]
  split
  · have hone := h.parenR.digits 1 (.cons (by decide) _)
    have hdiff := (hone.spaced (c := '-') (s := .op .sub) (by simp)).space
    have hmax := hdiff.number 9223372036854775807 ['L', 'L'] (by decide)
      (.cons (by decide) _)
    have hneg := Reads.of_first '-' [] (some (.sign (.op .sub))) rfl hmax
    exact hneg.parenL
  · rw [toList_toString_int64]
    split
    · exact (h.digits _ hs).minus _
    · exact h.digits _ hs

end WhileLang.C.Reads

namespace WhileLang

/-! ## Expressions -/

/-- An expression whose variables are resolved has code, which falls into its tokens. -/
theorem Expr.code_reads {ann : Annotations} {e : Expr} (hw : e.Whole) (hr : e.Resolved ann) :
    ∃ text, e.code .c ann = .ok text ∧ ∀ rest ts, C.Stops rest → C.Reads rest ts →
      C.Reads (text.toList ++ rest) (e.cTokens ann ++ ts) := by
  induction e with
  | binary n op l r ihl ihr =>
    obtain ⟨a, ha, hra⟩ := ihl hw.1 hr.1
    obtain ⟨b, hb, hrb⟩ := ihr hw.2 hr.2
    refine ⟨"(" ++ a ++ " " ++ Target.c.binary op ++ " " ++ b ++ ")", ?_, ?_⟩
    · rw [code, ha, hb]
      rfl
    · intro rest ts _ h
      have hend := h.parenR
      have hop := (hrb _ _ (.cons (by decide) _) hend).binary op
      have hall := (hra _ _ (.cons (by decide) _) hop).parenL
      simpa [cTokens] using hall
  | unary n op e ih =>
    obtain ⟨a, ha, hra⟩ := ih hw hr
    refine ⟨Target.c.unary op ++ "(" ++ a ++ ")", ?_, ?_⟩
    · rw [code, ha]
      rfl
    · intro rest ts _ h
      have hend := h.parenR
      have hinner := (hra _ _ (.cons (by decide) _) hend).parenL
      simpa [cTokens] using hinner.unary op
  | bool n b =>
    refine ⟨_, rfl, ?_⟩
    intro rest ts hs h
    cases b
    · exact h.keyword (k := .false) (by decide) hs
    · exact h.keyword (k := .true) (by decide) hs
  | int n v => exact ⟨_, rfl, fun rest ts hs h => h.int v hs⟩
  | var n s =>
    obtain ⟨d, hd⟩ := hr
    refine ⟨Target.varName s.name d, ann.varName_eq_ok hd s.name, ?_⟩
    intro rest ts hs h
    rw [cTokens, ann.targetName_eq hd]
    exact h.name hw d hs
  | hole n => exact hw.elim

/-! ## Lines -/

/-- The indent is made of characters that C passes over. -/
def Indent.CBlank (indent : Indent) : Prop :=
  ∀ c ∈ indent.unit.toList, C.isBlank c = true

theorem C.Reads.line {indent : Indent} (hi : indent.CBlank) (line : Line) (lines : List Line)
    {rest : List Char} {ts : List C.Token}
    (h : C.Reads (line.text.toList ++ '\n' :: (Line.chars indent lines ++ rest)) ts) :
    C.Reads (Line.chars indent (line :: lines) ++ rest) ts := by
  simpa [Line.chars, Line.render] using h.blanks (Indent.forall_before hi line.depth)

/-- A name, an assignment sign and a value. -/
theorem C.Reads.assigned {x : String} (hx : IsName x) (d : DeclId) {ann : Annotations} {e : Expr}
    {text : String} {rest : List Char} {ts : List C.Token}
    (he : ∀ rest ts, C.Stops rest → C.Reads rest ts →
      C.Reads (text.toList ++ rest) (e.cTokens ann ++ ts)) (h : C.Reads rest ts) :
    C.Reads ((Target.c.assign (Target.varName x d) text).toList ++ '\n' :: rest)
      (.name (Target.varName x d) :: .sign .assign ::
        (e.cTokens ann ++ .sign .semicolon :: ts)) := by
  have hnl := h.newline
  have hvalue := he _ _ (.cons (by decide) _) hnl.semicolon
  have hsign := (hvalue.spaced (c := '=') (s := .assign) (by simp)).space
  simpa [Target.assign] using hsign.name hx d (.cons (by decide) _)

/-! ## Statements -/

theorem Ty.declarator_reads {t : Ty} (ht : t ≠ .unknown) :
    ∃ text, Target.c.declarator t = .ok text ∧
    ∀ rest ts, C.Reads rest ts → C.Reads (text.toList ++ rest) (t.cTokens ++ ts) := by
  cases t with
  | int =>
    refine ⟨_, rfl, ?_⟩
    intro rest ts h
    have hlong := h.keywordSpace (k := .long) (by decide)
    exact hlong.keywordSpace (k := .long) (by decide)
  | bool =>
    refine ⟨_, rfl, ?_⟩
    intro rest ts h
    exact h.keywordSpace (k := .bool) (by decide)
  | unknown => exact absurd rfl ht

/-- A block whose variables are resolved has code, which falls into its tokens. -/
theorem Block.code_reads {ann : Annotations} {indent : Indent} (hi : indent.CBlank) {b : Block}
    (hw : b.Whole) (hr : b.Resolved ann) (depth : Nat) :
    ∃ lines, b.code .c ann depth = .ok lines ∧ ∀ rest ts, C.Reads rest ts →
      C.Reads (Line.chars indent lines ++ rest) (b.cTokens ann ++ ts) := by
  induction b generalizing depth with
  | done => exact ⟨[], rfl, fun rest ts h => h⟩
  | declare d rest' ih =>
    obtain ⟨hwi, hty, hx, hwr⟩ := hw
    obtain ⟨init, hinit, hri⟩ := Expr.code_reads hwi hr.1
    obtain ⟨decl, hdecl, hrd⟩ := Ty.declarator_reads hty
    obtain ⟨lines, hlines, hrr⟩ := ih hwr hr.2 depth
    refine ⟨⟨depth, decl ++ Target.c.assign (Target.varName d.symbol.name d.decl) init⟩ :: lines,
      ?_, ?_⟩
    · rw [code, Declaration.code, hinit, hlines]
      simp [bind, Except.bind, hdecl]
    · intro rest ts h
      have hall := hrd _ _ ((hrr _ _ h).assigned hx d.decl hri)
      apply C.Reads.line hi
      simpa [cTokens] using hall
  | assign a rest' ih =>
    obtain ⟨hwv, hx, hwr⟩ := hw
    obtain ⟨hrv, ⟨d, hd⟩, hrr⟩ := hr
    obtain ⟨value, hvalue, hrv⟩ := Expr.code_reads hwv hrv
    obtain ⟨lines, hlines, hrr⟩ := ih hwr hrr depth
    refine ⟨⟨depth, Target.c.assign (Target.varName a.symbol.name d) value⟩ :: lines, ?_, ?_⟩
    · rw [code, Assignment.code, hvalue, hlines]
      simp [bind, Except.bind, ann.varName_eq_ok hd]
    · intro rest ts h
      apply C.Reads.line hi
      rw [cTokens, ann.targetName_eq hd]
      simpa using (hrr _ _ h).assigned hx d hrv
  | loop w body rest' ihb ihr =>
    obtain ⟨cond, hcond, hrc⟩ := Expr.code_reads hw.1 hr.1
    obtain ⟨inner, hinner, hrb⟩ := ihb hw.2.1 hr.2.1 (depth + 1)
    obtain ⟨lines, hlines, hrr⟩ := ihr hw.2.2 hr.2.2 depth
    refine ⟨⟨depth, "while (" ++ cond ++ ") \x7b"⟩ :: (inner ++ ⟨depth, "\x7d"⟩ :: lines), ?_, ?_⟩
    · rw [code, hcond, hinner, hlines]
      simp [bind, Except.bind, Target.loopHead, Target.bodyBegin, Target.loopEnd]
    · intro rest ts h
      -- the line is read from its end, as every token needs to know what comes after it
      have hend : C.Reads (Line.chars indent (⟨depth, "\x7d"⟩ :: lines) ++ rest)
          (.sign .braceR :: (rest'.cTokens ann ++ ts)) := by
        apply C.Reads.line hi
        have hnl := (hrr _ _ h).newline
        simpa using hnl.braceR
      have hopen := (hrb _ _ hend).newline.braceL
      have hparen := hopen.space.parenR
      have hhead := (hrc _ _ (.cons (by decide) _) hparen).parenL
      have hall := hhead.keywordSpace (k := .while) (by decide)
      apply C.Reads.line hi
      simpa [cTokens, Line.chars, C.Keyword.text] using hall

/-! ## Programs -/

theorem Target.toList_print_bool (e : String) : (Target.c.print .bool e).toList =
    "printf(".toList ++ (e.toList ++ " ? \"true\\n\" : \"false\\n\");".toList) := by
  have hprint : Target.c.print .bool e = "printf(" ++ e ++ " ? \"true\\n\" : \"false\\n\");" := rfl
  rw [hprint, String.toList_append, String.toList_append, List.append_assoc]

theorem Target.toList_print_of_ne {ty : Ty} (hty : ty ≠ .bool) (e : String) :
    (Target.c.print ty e).toList =
      "printf(\"%lld\\n\", (long long)(".toList ++ (e.toList ++ "));".toList) := by
  have hprint : Target.c.print ty e = "printf(\"%lld\\n\", (long long)(" ++ e ++ "));" := by
    cases ty with
    | bool => exact absurd rfl hty
    | int => rfl
    | unknown => rfl
  rw [hprint, String.toList_append, String.toList_append, List.append_assoc]

/-- The call that prints the result, with the semicolon after it. -/
theorem C.Reads.printed (ty : WhileLang.Ty) {ann : Annotations} {e : Expr} {text : String}
    {rest : List Char} {ts : List C.Token}
    (he : ∀ rest ts, C.Stops rest → C.Reads rest ts →
      C.Reads (text.toList ++ rest) (e.cTokens ann ++ ts)) (h : C.Reads rest ts) :
    C.Reads ((Target.c.print ty text).toList ++ rest)
      (.keyword .printf :: .sign .parenL :: (printedTokens ty (e.cTokens ann) ++
        .sign .parenR :: .sign .semicolon :: ts)) := by
  have hend := h.semicolon.parenR
  by_cases hty : ty = .bool
  · subst hty
    have hno := C.Reads.of_first '"' ['f', 'a', 'l', 's', 'e', '\\', 'n', '"']
      (some (.string ['f', 'a', 'l', 's', 'e', '\n'])) rfl hend
    have hcolon := (hno.spaced (c := ':') (s := .colon) (by simp)).space
    have hyes := C.Reads.of_first '"' ['t', 'r', 'u', 'e', '\\', 'n', '"']
      (some (.string ['t', 'r', 'u', 'e', '\n'])) rfl hcolon
    have hquestion := hyes.space.lone (c := '?') (s := .question) (by simp)
    have hcond := he _ _ (.cons (by decide) _) hquestion.space
    have hopen := hcond.parenL
    have hall := hopen.keyword (k := .printf) (by decide) (.cons (by decide) _)
    rw [Target.toList_print_bool, printedTokens, if_pos rfl]
    simp only [List.cons_append, List.append_assoc, List.nil_append]
    exact hall
  · have hclose := hend.parenR
    have harg := (he _ _ (.cons (by decide) _) hclose).parenL
    have hlong := harg.parenR.keyword (k := .long) (by decide)
      (.cons (by decide) _)
    have hlong' := hlong.keywordSpace (k := .long) (by decide)
    have hcast := hlong'.parenL.space
    have hformat := C.Reads.of_first '"' ['%', 'l', 'l', 'd', '\\', 'n', '"']
      (some (.string ['%', 'l', 'l', 'd', '\n'])) rfl
      (hcast.lone (c := ',') (s := .comma) (by simp))
    have hopen := hformat.parenL
    have hall := hopen.keyword (k := .printf) (by decide) (.cons (by decide) _)
    rw [Target.toList_print_of_ne hty, printedTokens, if_neg hty]
    simp only [List.cons_append, List.append_assoc, List.nil_append]
    exact hall

/-- The lines before the statements of the program. -/
theorem C.Reads.preamble (indent : Indent) {rest : List Char} {ts : List C.Token}
    (h : C.Reads rest ts) :
    C.Reads (Line.chars indent (Target.preamble .c) ++ rest)
      (.directive "include <stdbool.h>" :: .directive "include <stdio.h>" :: .keyword .int ::
        .name "main" :: .sign .parenL :: .sign .parenR :: .sign .braceL :: ts) := by
  have hopen := h.newline.braceL
  have hclose := hopen.space.parenR
  have hmain : C.Reads ("main".toList ++ '(' :: ')' :: ' ' :: '\x7b' :: '\n' :: rest)
      (.name "main" :: .sign .parenL :: .sign .parenR :: .sign .braceL :: ts) :=
    hclose.parenL.word (c := 'm') (by decide)
      (List.all_eq_true.1 (by decide)) (.cons (by decide) _)
  have hint := hmain.keywordSpace (k := .int) (by decide)
  have hblank := hint.newline.newline
  have hstdio := C.Reads.of_first '#' "include <stdio.h>".toList
    (some (.directive "include <stdio.h>")) rfl hblank
  have hstdbool := C.Reads.of_first '#' "include <stdbool.h>".toList
    (some (.directive "include <stdbool.h>")) rfl hstdio.newline
  simpa [Line.chars, Target.preamble, Line.render, Indent.before, C.Keyword.text] using hstdbool

/-- **A program whose variables are resolved has code, which falls into its tokens.** -/
theorem Program.code_reads {ann : Annotations} {indent : Indent} (hi : indent.CBlank) {p : Program}
    (hw : p.Whole) (hb : p.body.Resolved ann) (hr : p.result.Resolved ann) :
    ∃ text, p.code .c ann indent = .ok text ∧ C.Reads text.toList (p.cTokens ann) := by
  obtain ⟨lines, hlines, hbody⟩ := Block.code_reads hi hw.1 hb 1
  obtain ⟨result, hresult, hread⟩ := Expr.code_reads hw.2 hr
  let ty : WhileLang.Ty := ann.tyOf p.result
  let last : Line := ⟨1, Target.c.print ty result⟩
  refine ⟨Line.renderAll indent (Target.preamble .c ++ lines ++ [last] ++ Target.epilogue .c),
    ?_, ?_⟩
  · rw [code, codeLines, Target.bodyDepth, hlines, hresult]
    rfl
  -- from the last line back to the first
  · have hbrace : C.Reads (Line.chars indent [⟨0, "\x7d"⟩] ++ []) [.sign .braceR] := by
      apply C.Reads.line hi
      exact C.Reads.nil.newline.braceR
    have hreturn : C.Reads (Line.chars indent (Target.epilogue .c) ++ [])
        [.keyword .return, .number 0 "", .sign .semicolon, .sign .braceR] := by
      apply C.Reads.line hi
      have hsemi := hbrace.newline.semicolon
      have hzero := hsemi.digits 0 (.cons (by decide) _)
      exact hzero.keywordSpace (k := .return) (by decide)
    have hend : C.Reads (Line.chars indent (last :: Target.epilogue .c) ++ [])
        (endTokens ty (p.result.cTokens ann)) := by
      apply C.Reads.line hi
      exact hreturn.newline.printed ty hread
    have hall := (hbody _ _ hend).preamble indent
    rw [Line.toList_renderAll]
    simpa [Line.chars, cTokens] using hall

end WhileLang
