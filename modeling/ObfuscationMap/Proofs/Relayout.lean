import ObfuscationMap.Compilation
import ObfuscationMap.Proofs.Grammar.Places
import ObfuscationMap.Proofs.Segments
import ObfuscationMap.Proofs.Writing

/-!
Layout does not matter. The tokens of a source may be spelled out again with other blanks around them, and
with other marks around their comments, as long as they do not run into each other. Such a text consists of
the same pieces, which is all that the scopes look at, so the tokens differ in nothing but their places.
The parser does not look at these, and therefore gets as far as it did.
-/

namespace ObfuscationMap

theorem not_isWordPart_of_isBlank {c : Char} (h : isBlank c) : ¬ isWordPart c := by
  simp only [isBlank, Bool.or_eq_true, beq_iff_eq] at h
  rcases h with ((rfl | rfl) | rfl) | rfl <;> decide

theorem not_isDigit_of_isBlank {c : Char} (h : isBlank c) : ¬ c.isDigit := fun hd =>
  not_isWordPart_of_isBlank h (by rw [isWordPart, hd, Bool.or_true])

theorem Layout.blanks {bs cs : List Char} {ps : List Piece} (hb : ∀ c ∈ bs, isBlank c) (h : Layout ps cs) :
    Layout ps (bs ++ cs) := by
  induction bs with
  | nil => exact h
  | cons b bs ih =>
    rw [List.forall_mem_cons] at hb
    exact .blank hb.1 (ih hb.2)

def Piece.endsLine : Piece → Bool
  | .plain .comment cs => !cs.contains '\n'
  | _ => false

/-- A spelling that depends on nothing but the piece. The line feed behind a comment of one line is part
of it. -/
def Piece.respelled (p : Piece) : List Char :=
  if p.endsLine then '/' :: '/' :: (p.characters ++ ['\n']) else p.write

theorem Spelled.write {p : Piece} {spelling after rest : List Char} (h : Spelled p spelling after)
    (he : ¬ p.endsLine) (hr : ∀ d ∈ rest.head?, isBlank d) : Spelled p p.write rest := by
  cases h with
  | word hc hcs _ => exact .word hc hcs fun d hd => not_isWordPart_of_isBlank (hr d hd)
  | number hc hcs _ => exact .number hc hcs fun d hd => not_isDigit_of_isBlank (hr d hd)
  | mark _ =>
    -- What follows begins with a blank, so a dot is not the first of three.
    refine .mark fun _ hp => ?_
    obtain ⟨more, rfl⟩ := hp
    exact absurd (hr '.' rfl) (by decide)
  | text hq => exact .text hq
  | lineComment hn _ => simp [Piece.endsLine, hn] at he
  | blockComment hn hs => exact .blockComment hn hs
  | javadoc hn hs => exact .javadoc hn hs

theorem Spelled.endsLine {p : Piece} {spelling after : List Char} (h : Spelled p spelling after)
    (he : p.endsLine) (rest : List Char) : Spelled p ('/' :: '/' :: p.characters) ('\n' :: rest) := by
  cases h with
  | lineComment hn _ => exact .lineComment hn fun d hd => by cases hd; rfl
  | @blockComment cs _ _ _ =>
    have hn : '\n' ∉ cs := by simpa [Piece.endsLine] using he
    exact .lineComment hn fun d hd => by cases hd; rfl
  | _ => cases he

theorem Layout.respelled {p : Piece} {ps : List Piece} {spelling after rest : List Char}
    (hs : Spelled p spelling after) (hr : p.endsLine ∨ ∀ d ∈ rest.head?, isBlank d) (h : Layout ps rest) :
    Layout (p :: ps) (p.respelled ++ rest) := by
  rw [Piece.respelled]
  split
  · next he =>
    have hline := Layout.piece (hs.endsLine he rest) (.blank (by decide) h)
    simpa using hline
  · next he => exact .piece (hs.write he (hr.resolve_left he)) h

/-- The segments spell these tokens again. Any two of them have blanks between them, which may be missing
only behind the end of a line. -/
structure Relayout (ts : List Token) (gs : List Segment) (last : List Char) : Prop where
  tokens : gs.map Segment.token = ts
  spelled : ∀ g ∈ gs, g.spelling = g.token.piece.respelled
  blank : ∀ g ∈ gs, ∀ c ∈ g.blanks, isBlank c
  blank_last : ∀ c ∈ last, isBlank c
  apart : gs.IsChain fun g g' => g.token.piece.endsLine ∨ g'.blanks ≠ []

namespace Relayout

variable {ts : List Token} {g : Segment} {gs : List Segment} {last : List Char}

theorem tail (h : Relayout ts (g :: gs) last) : Relayout (gs.map Segment.token) gs last where
  tokens := rfl
  spelled := (List.forall_mem_cons.mp h.spelled).2
  blank := (List.forall_mem_cons.mp h.blank).2
  blank_last := h.blank_last
  apart := h.apart.tail

theorem stops (h : Relayout ts (g :: gs) last) : g.token.piece.endsLine ∨
    ∀ d ∈ (gs.flatMap Segment.text ++ last).head?, isBlank d := by
  cases gs with
  | nil => exact .inr fun d hd => h.blank_last d (List.mem_of_mem_head? hd)
  | cons g' gs =>
    refine (List.isChain_cons_cons.mp h.apart).1.imp_right fun hne d hd => ?_
    obtain ⟨c, cs, hc⟩ := List.exists_cons_of_ne_nil hne
    have hd' : c = d := by simpa [Segment.text, hc] using hd
    exact h.blank g' (by simp) d (by simp [hc, hd'])

theorem layout (h : Relayout ts gs last)
    (hs : ∀ t ∈ ts, ∃ spelling after, Spelled t.piece spelling after) :
    Layout (ts.map Token.piece) (gs.flatMap Segment.text ++ last) := by
  obtain rfl := h.tokens
  induction gs with
  | nil => simpa using Layout.done.blanks h.blank_last
  | cons g gs ih =>
    rw [List.map_cons, List.forall_mem_cons] at hs
    obtain ⟨⟨spelling, after, hg⟩, hgs⟩ := hs
    have hrest := Layout.respelled hg h.stops (ih h.tail hgs)
    have hall := hrest.blanks (h.blank g List.mem_cons_self)
    rw [← h.spelled g List.mem_cons_self] at hall
    simpa [Segment.text] using hall

end Relayout

namespace ScanState

theorem map_piece_tokens (s : ScanState) {ps : List PlacedPiece} (h : ∀ p ∈ ps, p.piece.Sorted) :
    (s.tokens ps).map Token.piece = ps.map PlacedPiece.piece := by
  induction ps generalizing s with
  | nil => rfl
  | cons p ps ih =>
    rw [List.forall_mem_cons] at h
    rw [tokens, List.map_cons, List.map_cons, s.piece_token h.1, ih _ h.2]

theorem tokens_unplaced (s : ScanState) {ps qs : List PlacedPiece}
    (h : ps.map PlacedPiece.piece = qs.map PlacedPiece.piece) :
    (s.tokens ps).map Token.unplaced = (s.tokens qs).map Token.unplaced := by
  induction ps generalizing s qs with
  | nil => rw [List.map_eq_nil_iff.mp h.symm]
  | cons p ps ih =>
    obtain ⟨q, qs, rfl, hq, hqs⟩ := List.map_eq_cons_iff.mp h.symm
    have ht : (s.token q).unplaced = (s.token p).unplaced := by
      simp only [token, Token.unplaced, hq]
    rw [tokens, tokens, List.map_cons, List.map_cons, ht, hq, ih _ hqs.symm]

end ScanState

theorem tokenize_relayout {source relaid : String} {ts : List Token} (h : tokenize source = .ok ts)
    {gs : List Segment} {last : List Char} (hr : Relayout ts.dropLast gs last)
    (hl : relaid.toList = gs.flatMap Segment.text ++ last) :
    ∃ ts', tokenize relaid = .ok ts' ∧ ts'.map Token.unplaced = ts.map Token.unplaced := by
  have hlayout := hr.layout (spelled_of_tokenize h)
  obtain ⟨ps, hp, rfl⟩ := tokenize_eq_ok_iff.mp h
  rw [List.dropLast_concat, ScanState.map_piece_tokens _ (sorted_pieces hp), ← hl] at hlayout
  obtain ⟨qs, hq, he⟩ := pieces_of_layout hlayout .start
  refine ⟨_, tokenize_eq_ok_iff.mpr ⟨qs, hq, rfl⟩, ?_⟩
  rw [List.map_append, List.map_append, ScanState.tokens_unplaced _ he]
  rfl

/-- Two results that are equal but for the place that an error names. -/
inductive SameOutcome : Except CompileError Mapping → Except CompileError Mapping → Prop
  | ok (t : Mapping) : SameOutcome (.ok t) (.ok t)
  | parse {e e' : ParseError} : e.expected = e'.expected → e.found = e'.found →
      SameOutcome (.error (.parse e)) (.error (.parse e'))

theorem sameOutcome_of_gist {x y : Except ParseError Script}
    (h : x.mapError ParseError.gist = y.mapError ParseError.gist) :
    SameOutcome ((x.mapError CompileError.parse).map Script.resolve)
      ((y.mapError CompileError.parse).map Script.resolve) := by
  match x, y, h with
  | .ok f, .ok g, h =>
    obtain rfl : f = g := Except.ok.inj h
    exact .ok _
  | .error e, .error e', h =>
    obtain ⟨hexpected, hfound⟩ := Prod.mk.inj (Except.error.inj h)
    exact .parse hexpected hfound

theorem sameOutcome_of_tokens {s s' : String} {ts ts' : List Token} (h : tokenize s = .ok ts)
    (h' : tokenize s' = .ok ts') (ht : ts.map Token.unplaced = ts'.map Token.unplaced) :
    SameOutcome (compile s) (compile s') := by
  have hp := parse_unplaced ts
  rw [ht, parse_unplaced ts'] at hp
  rw [compile, compile, parseSource, parseSource, h, h']
  exact sameOutcome_of_gist hp.symm

theorem compile_relayout {source relaid : String} {ts : List Token} (h : tokenize source = .ok ts)
    {gs : List Segment} {last : List Char} (hr : Relayout ts.dropLast gs last)
    (hl : relaid.toList = gs.flatMap Segment.text ++ last) :
    (∃ ts', tokenize relaid = .ok ts' ∧ ts'.map Token.unplaced = ts.map Token.unplaced) ∧
      SameOutcome (compile source) (compile relaid) := by
  obtain ⟨ts', h', ht⟩ := tokenize_relayout h hr hl
  exact ⟨⟨ts', h', ht⟩, sameOutcome_of_tokens h h' ht.symm⟩

theorem compile_relayout_comment :
    let source := "/*1*/import a...b"
    let relaid := " //1\nimport\ta\n... b\r\n"
    let ts : List Token := [⟨.comment, "1", ⟨1, 1⟩⟩, ⟨.keyword .importWord, "import", ⟨1, 6⟩⟩,
      ⟨.identifier, "a", ⟨1, 13⟩⟩, ⟨.mark .varargs, "...", ⟨1, 14⟩⟩, ⟨.identifier, "b", ⟨1, 17⟩⟩, .eof ⟨1, 18⟩]
    let gs : List Segment := [⟨[' '], ['/', '/', '1', '\n'], ts[0]⟩, ⟨[], "import".toList, ts[1]⟩,
      ⟨['\t'], ['a'], ts[2]⟩, ⟨['\n'], ['.', '.', '.'], ts[3]⟩, ⟨[' '], ['b'], ts[4]⟩]
    let last := ['\r', '\n']
    (tokenize source = .ok ts ∧ Relayout ts.dropLast gs last ∧
      relaid.toList = gs.flatMap Segment.text ++ last) ∧
      (∃ ts', tokenize relaid = .ok ts' ∧ ts'.map Token.unplaced = ts.map Token.unplaced) ∧
      SameOutcome (compile source) (compile relaid) := by
  intro source relaid ts gs last
  have h : tokenize source = .ok ts := by cbv
  have hr : Relayout ts.dropLast gs last := {
    tokens := by decide
    spelled := by decide
    blank := by simp [gs, isBlank]
    blank_last := by simp [last, isBlank]
    apart := by decide }
  have hl : relaid.toList = gs.flatMap Segment.text ++ last := by decide
  exact ⟨⟨h, hr, hl⟩, compile_relayout h hr hl⟩

end ObfuscationMap
