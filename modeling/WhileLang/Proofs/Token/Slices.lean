import WhileLang.Proofs.Token.Spacing
import WhileLang.Proofs.Token.Tiling

/-!
# `WhileLang/Proofs/Token/Slices.lean` — the text between two places of a source

A span names the places of its first and its last character, so a source has **one slice for each
span** (`Source.slice`), cut out by comparing places. Where the span is that of some tokens in a
row, from the first character of the first to the last character of the last, the slice is exactly
the text these tokens and the pieces between them were read from. Out of its context it reads as the
same tokens, before anything that makes the last of them no longer
(`reads_slice_append`).
-/

set_option autoImplicit false

namespace WhileLang

/-! ## Slices -/

/-- The bytes that stand in the span, when the first of them all stands at `p`. -/
def Source.sliceFrom (span : Span) : Position → Source → Source
  | _, [] => []
  | p, b :: rest =>
    if span.first ≤ p ∧ p ≤ span.last then b :: sliceFrom span (p.step (.ofUInt8 b)) rest
    else sliceFrom span (p.step (.ofUInt8 b)) rest

/-- The bytes of a source from the first place of a span to the last, both included. -/
def Source.slice (source : Source) (span : Span) : Source :=
  source.sliceFrom span .start

/-- What the characters in a span denote if they are digits, however many there are. -/
def Source.decimal? (source : Source) (span : Span) : Option Int :=
  let digits := (source.slice span).chars
  if digits ≠ [] ∧ digits.all Char.isDigit = true then
    some (Nat.ofDigitChars 10 digits 0)
  else none

namespace Source

variable {span : Span} {p : Position} {before : List Char}

theorem chars_cons (b : UInt8) (source : Source) :
    Source.chars (b :: source) = .ofUInt8 b :: source.chars := rfl

theorem chars_append (xs ys : Source) :
    Source.chars (xs ++ ys) = Source.chars xs ++ Source.chars ys :=
  List.map_append

theorem length_chars (source : Source) : source.chars.length = source.length :=
  List.length_map ..

theorem sliceFrom_append (span : Span) (p : Position) (xs ys : Source) :
    Source.sliceFrom span p (xs ++ ys) =
      Source.sliceFrom span p xs ++ Source.sliceFrom span (p.after (Source.chars xs)) ys := by
  induction xs generalizing p with
  | nil => rfl
  | cons b xs ih =>
    rw [List.cons_append, sliceFrom, sliceFrom, ih, chars_cons, Position.after_cons]
    split
    · rfl
    · rfl

/-- Nothing in front of the first place is in the slice. -/
theorem sliceFrom_before {xs : Source} (hp : p.Counts before)
    (hfirst : span.first.Counts (before ++ xs.chars))
    (h : (before ++ xs.chars).length < 4294967295) : xs.sliceFrom span p = [] := by
  induction xs generalizing p before with
  | nil => rfl
  | cons b xs ih =>
    have hout : ¬span.first ≤ p := hp.not_le hfirst (by simp [chars_cons])
    rw [chars_cons, List.append_cons] at h
    rw [sliceFrom, if_neg fun hin => hout hin.1]
    refine ih (hp.step ((List.prefix_append ..).length_le.trans_lt h)) ?_ h
    simpa [chars_cons] using hfirst

/-- Everything from the first place to the last is in the slice. -/
theorem sliceFrom_within {ys : Source} {start between : List Char} (hp : p.Counts before)
    (hfirst : span.first.Counts start) (hbefore : before = start ++ between)
    (hlast : span.last.Counts (before ++ ys.chars.dropLast))
    (h : (before ++ ys.chars).length < 4294967295) : ys.sliceFrom span p = ys := by
  induction ys generalizing p before between with
  | nil => rfl
  | cons b ys ih =>
    subst hbefore
    rw [chars_cons, List.append_cons] at h
    rw [sliceFrom, if_pos ⟨hfirst.le hp, hp.le hlast⟩]
    refine congrArg (b :: ·) ?_
    cases ys with
    | nil => rfl
    | cons b' ys =>
      have hstep := hp.step ((List.prefix_append ..).length_le.trans_lt h)
      refine ih hstep (List.append_assoc ..) ?_ h
      simpa [chars_cons] using hlast

/-- Nothing behind the last place is in the slice. -/
theorem sliceFrom_behind {zs : Source} {stop between : List Char} (hp : p.Counts before)
    (hlast : span.last.Counts stop) (hbefore : before = stop ++ between) (hne : between ≠ [])
    (h : (before ++ zs.chars).length < 4294967295) : zs.sliceFrom span p = [] := by
  induction zs generalizing p before between with
  | nil => rfl
  | cons b zs ih =>
    subst hbefore
    rw [chars_cons, List.append_cons] at h
    rw [sliceFrom, if_neg fun hin => hlast.not_le hp hne hin.2]
    have hstep := hp.step ((List.prefix_append ..).length_le.trans_lt h)
    exact ih hstep (List.append_assoc ..) (by simp) h

/-- **The slice is what stands between the places**, when these are counted in the source. -/
theorem slice_eq {xs ys zs : Source} (h : (xs ++ ys ++ zs).length < 4294967295) (hne : ys ≠ [])
    (hfirst : span.first.Counts (Source.chars xs))
    (hlast : span.last.Counts (Source.chars xs ++ (Source.chars ys).dropLast)) :
    Source.slice (xs ++ ys ++ zs) span = ys := by
  have hlt : (Source.chars xs ++ Source.chars ys ++ Source.chars zs).length < 4294967295 := by
    rwa [← chars_append, ← chars_append, length_chars]
  have hys : (Source.chars xs ++ Source.chars ys).length < 4294967295 :=
    (List.prefix_append ..).length_le.trans_lt hlt
  have hxs : (Source.chars xs).length < 4294967295 :=
    (List.prefix_append ..).length_le.trans_lt hys
  obtain ⟨c, hc⟩ : ∃ c, Source.chars ys = (Source.chars ys).dropLast ++ [c] := by
    have hcs : Source.chars ys ≠ [] := by simpa [Source.chars] using hne
    exact ⟨_, (List.dropLast_concat_getLast hcs).symm⟩
  have hin : Source.sliceFrom span (Position.start.after (Source.chars xs)) ys = ys :=
    sliceFrom_within (Position.counts_after hxs) hfirst (List.append_nil _).symm hlast hys
  have hbehind : Source.sliceFrom span
      (Position.start.after (Source.chars xs ++ Source.chars ys)) zs = [] := by
    refine sliceFrom_behind (Position.counts_after hys) hlast ?_ (List.cons_ne_nil c []) hlt
    rw [List.append_assoc, ← hc]
  have hbefore : Source.sliceFrom span .start xs = [] :=
    sliceFrom_before Position.counts_start hfirst hxs
  rw [Source.slice, sliceFrom_append, sliceFrom_append, hbefore, hin, chars_append, hbehind,
    List.append_nil, List.nil_append]

end Source

/-! ## Tokens in a row -/

theorem tilesOf_append (file : FileId) (p : Position) (ps qs : List Piece) :
    tilesOf file p (ps ++ qs) =
      tilesOf file p ps ++ tilesOf file (p.after (ps.flatMap Piece.text)) qs := by
  induction ps generalizing p with
  | nil => rfl
  | cons piece ps ih =>
    rw [List.cons_append, tilesOf, tilesOf, ih, List.cons_append, List.flatMap_cons,
      Position.after_append]

/-- A token was a piece, and the pieces in front of it are those of the tokens in front of it. -/
theorem exists_pieces_of_token {file : FileId} {p : Position} {ps : List Piece} {ts us : List Token}
    {t : Token} (h : (tilesOf file p ps).filterMap Tile.token? = ts ++ t :: us) :
    ∃ xs spelling ys, ps = xs ++ .token spelling t.lexeme :: ys ∧
      (tilesOf file p xs).filterMap Tile.token? = ts ∧
      t = ⟨t.lexeme, ⟨file, p.after (xs.flatMap Piece.text),
        (p.after (xs.flatMap Piece.text)).last spelling⟩⟩ := by
  obtain ⟨before, rest, htiles, hbefore, hrest⟩ := List.filterMap_eq_append_iff.1 h
  obtain ⟨blanks, tile, after, rfl, hblanks, htile, -⟩ := List.filterMap_eq_cons_iff.1 hrest
  rw [← List.append_assoc] at htiles
  obtain ⟨xs, piece, ys, hps, hxs, rfl, -⟩ := exists_of_tilesOf_eq htiles
  cases piece with
  | blank c => cases htile
  | stray c => cases htile
  | token spelling l =>
    obtain rfl := Option.some.inj htile
    refine ⟨xs, spelling, ys, hps, ?_, rfl⟩
    rw [hxs, List.filterMap_append, hbefore, List.filterMap_eq_nil_iff.2 hblanks, List.append_nil]

/-- **Tokens in a row were pieces in a row**, with a token at both ends. -/
theorem exists_pieces_of_tokens {file : FileId} {p : Position} {ps : List Piece}
    {ts us vs : List Token} {first last : Token} (hps : ∀ piece ∈ ps, piece.text ≠ [])
    (h : (tilesOf file p ps).filterMap Tile.token? = ts ++ us ++ vs)
    (hfirst : us.head? = some first) (hlast : us.getLast? = some last) :
    ∃ xs ys zs, ps = xs ++ ys ++ zs ∧ ys.flatMap Piece.text ≠ [] ∧
      ys.filterMap Piece.lexeme? = us.map (·.lexeme) ∧
      first.span.first = p.after (xs.flatMap Piece.text) ∧
      last.span.last = p.after (xs.flatMap Piece.text ++ (ys.flatMap Piece.text).dropLast) := by
  obtain ⟨us', rfl⟩ := List.getLast?_eq_some_iff.1 hlast
  obtain ⟨more, hmore⟩ := List.head?_eq_some_iff.1 hfirst
  -- first the pieces up to the last token, and then those of them from the first token on
  have hto : (tilesOf file p ps).filterMap Tile.token? = (ts ++ us') ++ last :: vs := by
    simpa using h
  obtain ⟨ws, spelling, zs, rfl, hws, hl⟩ := exists_pieces_of_token hto
  rw [List.append_cons] at hps ⊢
  have hupto : (tilesOf file p (ws ++ [.token spelling last.lexeme])).filterMap Tile.token? =
      ts ++ (us' ++ [last]) := by
    rw [tilesOf_append, List.filterMap_append, hws, List.append_assoc]
    exact congrArg (fun t => ts ++ (us' ++ [t])) hl.symm
  have hlexemes := Lexer.lexemes_tilesOf file p (ws ++ [.token spelling last.lexeme])
  rw [hupto, List.map_append] at hlexemes
  rw [hmore] at hupto
  obtain ⟨xs, spelling', ys, hsplit, hxs, hf⟩ := exists_pieces_of_token hupto
  have hspelling : spelling ≠ [] :=
    hps (.token spelling last.lexeme) (by simp)
  have hspelling' : spelling' ≠ [] := by
    refine hps (.token spelling' first.lexeme) (List.mem_append_left _ ?_)
    rw [hsplit]
    exact List.mem_append_right _ (List.mem_cons_self ..)
  have hne : (Piece.token spelling' first.lexeme :: ys).flatMap Piece.text ≠ [] :=
    List.append_ne_nil_of_left_ne_nil hspelling' _
  refine ⟨xs, .token spelling' first.lexeme :: ys, zs, by rw [hsplit], hne, ?_, by rw [hf], ?_⟩
  · rw [hsplit, List.filterMap_append, ← Lexer.lexemes_tilesOf file p xs, hxs] at hlexemes
    exact (List.append_cancel_left hlexemes).symm
  · have htext : ws.flatMap Piece.text ++ spelling =
        xs.flatMap Piece.text ++ (Piece.token spelling' first.lexeme :: ys).flatMap Piece.text := by
      rw [← List.flatMap_append, ← hsplit, List.flatMap_append, List.flatMap_singleton]
      rfl
    rw [← List.dropLast_append_of_ne_nil hne, ← htext, List.dropLast_append_of_ne_nil hspelling,
      Position.after_append, hl]
    rfl

/-! ## Reading a slice -/

/-- Pieces in a row are the pieces of their own text, before anything that makes none longer. -/
theorem pieces_text_append {text : List Char} {xs ys zs : List Piece}
    (h : pieces text = xs ++ ys ++ zs) {z : List Char} (hz : Unreached z) :
    pieces (ys.flatMap Piece.text ++ z) = ys ++ pieces z := by
  have hself : pieces (ys.flatMap Piece.text ++ zs.flatMap Piece.text) = ys ++ zs := by
    rw [← List.flatMap_append]
    exact pieces_text_of_eq_append (h.trans (List.append_assoc ..))
  obtain ⟨ps, hps, happend⟩ := (Seam.of_pieces hself rfl).exists_pieces_append
  rw [hself, pieces_text_of_eq_append h] at hps
  rw [happend z hz, List.append_cancel_right hps]

/-- The slice from the place of a piece to the last place of another is the text of the pieces from
the one to the other. -/
theorem chars_slice_of_pieces {source : Source} {span : Span} {xs ys zs : List Piece}
    (hlt : source.length < 4294967295) (h : pieces source.chars = xs ++ ys ++ zs)
    (hne : ys.flatMap Piece.text ≠ [])
    (hfirst : span.first = Position.start.after (xs.flatMap Piece.text))
    (hlast : span.last =
      Position.start.after (xs.flatMap Piece.text ++ (ys.flatMap Piece.text).dropLast)) :
    (source.slice span).chars = ys.flatMap Piece.text := by
  have htext := text_pieces source.chars
  rw [h, List.flatMap_append, List.flatMap_append] at htext
  obtain ⟨_, ds, rfl, hchars, -⟩ := List.map_eq_append_iff.1 htext.symm
  obtain ⟨bs, cs, rfl, hbs, hcs⟩ := List.map_eq_append_iff.1 hchars
  have hbs : Source.chars bs = xs.flatMap Piece.text := hbs
  have hcs : Source.chars cs = ys.flatMap Piece.text := hcs
  have hplaces : (Source.chars bs ++ Source.chars cs).length < 4294967295 := by
    rw [← Source.chars_append, Source.length_chars]
    exact (List.prefix_append ..).length_le.trans_lt hlt
  have hslice : Source.slice (bs ++ cs ++ ds) span = cs := by
    apply Source.slice_eq hlt
    · rintro rfl
      exact hne hcs.symm
    · rw [hfirst, ← hbs]
      exact Position.counts_after ((List.prefix_append ..).length_le.trans_lt hplaces)
    · rw [hlast, ← hbs, ← hcs]
      apply Position.counts_after
      refine Nat.lt_of_le_of_lt ?_ hplaces
      rw [List.length_append, List.length_append, List.length_dropLast]
      exact Nat.add_le_add_left (Nat.sub_le ..) _
  rw [hslice, hcs]

/-- **The slice from one token to another reads as the tokens from the one to the other.** -/
theorem reads_slice_append {file : FileId} {source : Source} {span : Span}
    {ts us vs : List Token} {first last : Token} (hlt : source.length < 4294967295)
    (hstray : ∀ c, .stray c ∉ pieces source.chars)
    (h : (tilesOf file .start (pieces source.chars)).filterMap Tile.token? = ts ++ us ++ vs)
    (hfirst : us.head? = some first) (hlast : us.getLast? = some last)
    (hbegin : span.first = first.span.first) (hend : span.last = last.span.last)
    {z : List Char} {ls : List Lexeme} (hz : Unreached z) (hr : Reads z ls) :
    Reads ((source.slice span).chars ++ z) (us.map (·.lexeme) ++ ls) := by
  obtain ⟨xs, ys, zs, hps, hne, hlexemes, hf, hl⟩ :=
    exists_pieces_of_tokens (fun _ => text_ne_nil_of_mem_pieces) h hfirst hlast
  rw [chars_slice_of_pieces hlt hps hne (hbegin.trans hf) (hend.trans hl)]
  have hpieces := pieces_text_append hps hz
  refine ⟨?_, fun c hc => ?_⟩
  · rw [lexemes, hpieces, List.filterMap_append, hlexemes, ← hr.1]
    rfl
  · rw [hpieces, List.mem_append] at hc
    rcases hc with hc | hc
    · refine hstray c ?_
      rw [hps]
      exact List.mem_append_left _ (List.mem_append_right _ hc)
    · exact hr.2 c hc

end WhileLang
