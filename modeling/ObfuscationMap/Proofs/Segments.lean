import ObfuscationMap.Proofs.Words
import ObfuscationMap.Proofs.Layout

/-!
Tokens account for their source. Between blanks every token is spelled out in full, and it stands where
its spelling begins. The relation that lays pieces out also tells how far a spelling goes, so no word,
number or run of dots is cut short, and no comment goes on behind its end.
-/

namespace ObfuscationMap

namespace Cut

/-- A cut takes a blank, or a piece that is spelled with regard to what follows it. -/
def Faithful (k : Cut) : Prop :=
  match k.piece with
  | none => ∀ c ∈ k.spelling, isBlank c
  | some p => Spelled p k.spelling k.rest

theorem faithful_mark {m : Mark} {rest : List Char} (h : m = .dot → ¬ ['.', '.'] <+: rest) :
    (mark m rest).Faithful := Spelled.mark h

theorem faithful_dots (rest : List Char) : (dots rest).Faithful := by
  unfold dots
  split
  · exact faithful_mark (by simp)
  · next hr =>
    refine faithful_mark fun _ hp => ?_
    obtain ⟨more, rfl⟩ := hp
    exact hr more rfl

theorem end_not_in_text {cs text rest : List Char} (h : untilCommentEnd cs = some (text, rest)) :
    ¬ ['*', '/'] <:+: text := by
  fun_induction untilCommentEnd cs generalizing text with
  | case1 => cases h
  | case2 => cases h; simp
  | case3 c cs hc ih =>
    obtain ⟨⟨text', rest'⟩, hr, he⟩ := Option.map_eq_some_iff.mp h
    cases he
    rw [List.infix_cons_iff, not_or]
    refine ⟨fun hp => ?_, ih hr⟩
    -- A star with a slash behind it would have ended the comment here.
    obtain ⟨rfl, more, rfl⟩ := List.cons_prefix_cons.mp hp
    exact hc _ rfl (eq_of_untilCommentEnd hr)

theorem block_ok {kind : TokenKind} {opening body : List Char} {k : Cut}
    (h : block kind opening body = .ok k) : ∃ text rest, body = text ++ ['*', '/'] ++ rest ∧
      ¬ ['*', '/'] <:+: text ∧ k = ⟨some (.plain kind text), opening ++ text ++ ['*', '/'], rest⟩ := by
  unfold block at h
  split at h
  · next text rest hu =>
    cases h
    exact ⟨text, rest, eq_of_untilCommentEnd hu, end_not_in_text hu, rfl⟩
  · cases h

theorem stops {p : Char → Bool} (cs : List Char) : ∀ d ∈ (cs.dropWhile p).head?, ¬ p d := by
  intro d hd
  have hf := List.head?_dropWhile_not p cs
  rw [Option.mem_def.mp hd] at hf
  simpa using hf

theorem faithful_comment {rest : List Char} {k : Cut} (h : comment rest = .ok k) : k.Faithful := by
  unfold comment at h
  split at h
  · next rest =>
    cases h
    refine Spelled.lineComment ?_ ?_
    · intro hn
      simpa using List.mem_takeWhile_imp hn
    · intro d hd
      simpa using stops rest d hd
  · next rest =>
    have hb : block .comment ['/', '*'] ('*' :: '/' :: rest) =
        .ok ⟨some (.plain .comment []), ['/', '*', '*', '/'], rest⟩ := by
      rw [block, untilCommentEnd]
      rfl
    have hs : Spelled (.plain .comment []) ['/', '*', '*', '/'] rest := .blockComment (by simp) (by simp)
    rw [hb] at h
    cases h
    exact hs
  · next rest hr =>
    obtain ⟨text, more, rfl, ht, rfl⟩ := block_ok h
    refine Spelled.javadoc ht fun hh => ?_
    obtain ⟨text', rfl⟩ := List.head?_eq_some_iff.mp hh
    exact hr _ rfl
  · next rest _ hr =>
    obtain ⟨text, more, rfl, ht, rfl⟩ := block_ok h
    refine Spelled.blockComment ht fun hh => ?_
    obtain ⟨text', rfl⟩ := List.head?_eq_some_iff.mp hh
    exact hr _ rfl
  · cases h

theorem faithful_quotation {body : List Char} {k : Cut} (h : quotation body = .ok k) : k.Faithful := by
  unfold quotation at h
  split at h
  · cases h
    refine Spelled.text fun hq => ?_
    simpa using List.mem_takeWhile_imp hq
  · cases h

theorem faithful_word {c : Char} (h : isWordStart c) (rest : List Char) :
    (run .word isWordPart c rest).Faithful :=
  Spelled.word h (fun _ hd => List.mem_takeWhile_imp hd) (stops rest)

theorem faithful_number {c : Char} (h : c.isDigit) (rest : List Char) :
    (run (.plain .number) Char.isDigit c rest).Faithful :=
  Spelled.number h (fun _ hd => List.mem_takeWhile_imp hd) (stops rest)

end Cut

theorem Mark.ofChar?_ne_dot {c : Char} {m : Mark} (h : Mark.ofChar? c = some m) : m ≠ .dot := by
  rintro rfl
  have hc := Mark.ofChar?_spelling h
  cases hc
  cases h

theorem faithful_cut {c : Char} {rest : List Char} {k : Cut} (h : cut c rest = .ok k) : k.Faithful := by
  unfold cut at h
  split at h
  · next hb => cases h; simpa [Cut.Faithful] using hb
  split at h
  · next m hm => cases h; exact Cut.faithful_mark fun hd => absurd hd (Mark.ofChar?_ne_dot hm)
  split at h
  · cases h; exact Cut.faithful_dots rest
  split at h
  · unfold Cut.arrow at h
    split at h
    · cases h; exact Cut.faithful_mark (by simp)
    · cases h
  split at h
  · exact Cut.faithful_comment h
  split at h
  · exact Cut.faithful_quotation h
  split at h
  · next hd => cases h; exact Cut.faithful_number hd rest
  split at h
  · next hs => cases h; exact Cut.faithful_word hs rest
  · cases h

/-- Where a character stands that has these before it. Lines begin behind line feeds. -/
def Position.behind (before : List Char) : Position :=
  ⟨1 + before.count '\n', 1 + (before.reverse.takeWhile (· != '\n')).length⟩

theorem Position.afterAll_start (cs : List Char) : Position.start.afterAll cs = behind cs := by
  induction cs using List.reverseRecOn with
  | nil => rfl
  | append_singleton cs c ih =>
    rw [afterAll_append, ih, afterAll, List.foldl_cons, List.foldl_nil, after]
    by_cases hc : c = '\n'
    · simp [hc, behind, Nat.add_assoc]
    · simp [hc, behind, Nat.add_comm]

theorem Position.afterAll_behind (before cs : List Char) :
    (behind before).afterAll cs = behind (before ++ cs) := by
  rw [← afterAll_start, ← afterAll_start, afterAll_append]

def Token.piece (t : Token) : Piece :=
  if t.kind.isWord then .word t.lexeme.toList else .plain t.kind t.lexeme.toList

theorem Spelled.sorted {p : Piece} {spelling rest : List Char} (h : Spelled p spelling rest) : p.Sorted := by
  cases h <;> simp [Piece.Sorted, TokenKind.isWord]

theorem ScanState.piece_token (s : ScanState) {p : PlacedPiece} (h : p.piece.Sorted) :
    (s.token p).piece = p.piece := by
  obtain ⟨piece, place⟩ := p
  cases piece with
  | word w =>
    have hw : (s.token ⟨.word w, place⟩).kind.isWord := isWord_classify _ _
    rw [Token.piece, if_pos hw, token, String.toList_ofList]
    rfl
  | plain kind cs =>
    have hn : ¬ (s.token ⟨.plain kind cs, place⟩).kind.isWord := h
    rw [Token.piece, if_neg hn, token, String.toList_ofList]
    rfl

structure Segment where
  blanks : List Char
  spelling : List Char
  token : Token

namespace Segment

def text (g : Segment) : List Char := g.blanks ++ g.spelling

structure Stands (g : Segment) (before after : List Char) : Prop where
  blank : ∀ c ∈ g.blanks, isBlank c
  spelled : Spelled g.token.piece g.spelling after
  place : g.token.position = .behind (before ++ g.blanks)

end Segment

/-- The segments of a source that has these characters before it. -/
inductive Segmented : List Char → List Segment → List Char → Prop
  | done {before cs : List Char} : (∀ c ∈ cs, isBlank c) → Segmented before [] cs
  | next {before rest : List Char} {g : Segment} {gs : List Segment} : g.Stands before rest →
      Segmented (before ++ g.text) gs rest → Segmented before (g :: gs) (g.text ++ rest)

theorem Segmented.blanks {before bs cs : List Char} {gs : List Segment} (hb : ∀ c ∈ bs, isBlank c)
    (h : Segmented (before ++ bs) gs cs) :
    ∃ gs', gs'.map Segment.token = gs.map Segment.token ∧ Segmented before gs' (bs ++ cs) := by
  cases h with
  | done hc => exact ⟨[], rfl, .done (List.forall_mem_append.mpr ⟨hb, hc⟩)⟩
  | @next _ rest g gs hg hgs =>
    refine ⟨⟨bs ++ g.blanks, g.spelling, g.token⟩ :: gs, rfl, ?_⟩
    have hs : Segment.Stands ⟨bs ++ g.blanks, g.spelling, g.token⟩ before rest := by
      refine ⟨List.forall_mem_append.mpr ⟨hb, hg.blank⟩, hg.spelled, ?_⟩
      simpa using hg.place
    have hn := Segmented.next hs (by simpa [Segment.text] using hgs)
    simpa [Segment.text] using hn

theorem segmented_pieces {before cs : List Char} {ps : List PlacedPiece}
    (h : pieces (.behind before) cs = .ok ps) (s : ScanState) :
    ∃ gs, gs.map Segment.token = s.tokens ps ∧ Segmented before gs cs := by
  generalize hp : Position.behind before = p at h
  induction h using pieces_ok_induction generalizing before s with
  | nil => exact ⟨[], rfl, .done (by simp)⟩
  | blank p c cs k ps _ hc hn _ ih =>
    subst hp
    have hf := faithful_cut hc
    rw [Cut.Faithful, hn] at hf
    obtain ⟨gs, hgs, hseg⟩ := ih s (Position.afterAll_behind before k.spelling).symm
    obtain ⟨gs', hgs', hseg'⟩ := hseg.blanks hf
    rw [cut_eq_append hc]
    exact ⟨gs', hgs'.trans hgs, hseg'⟩
  | piece p c cs k q ps _ hc hs _ ih =>
    subst hp
    have hf := faithful_cut hc
    rw [Cut.Faithful, hs] at hf
    obtain ⟨gs, hgs, hseg⟩ := ih (s.step q) (Position.afterAll_behind before k.spelling).symm
    have hg : Segment.Stands ⟨[], k.spelling, s.token ⟨q, .behind before⟩⟩ before k.rest := by
      refine ⟨by simp, ?_, by simp [ScanState.token]⟩
      rwa [s.piece_token hf.sorted]
    rw [cut_eq_append hc]
    refine ⟨_ :: gs, ?_, .next hg hseg⟩
    rw [List.map_cons, hgs]
    rfl

theorem Segmented.split {before cs : List Char} {gs : List Segment} (h : Segmented before gs cs) :
    ∃ last, cs = gs.flatMap Segment.text ++ last ∧ (∀ c ∈ last, isBlank c) ∧
      ∀ gs₁ g gs₂, gs = gs₁ ++ g :: gs₂ →
        g.Stands (before ++ gs₁.flatMap Segment.text) (gs₂.flatMap Segment.text ++ last) := by
  induction h with
  | @done before cs hc => exact ⟨cs, rfl, hc, by simp⟩
  | @next before rest g gs hg _ ih =>
    obtain ⟨last, rfl, hl, hs⟩ := ih
    refine ⟨last, by simp, hl, fun gs₁ g' gs₂ he => ?_⟩
    cases gs₁ with
    | nil =>
      cases he
      simpa using hg
    | cons g₁ gs₁ =>
      cases he
      simpa using hs gs₁ g' gs₂ rfl

theorem Segment.Stands.kind_ne_eof {g : Segment} {before after : List Char} (h : g.Stands before after) :
    g.token.kind ≠ .eof := by
  intro he
  have hs := h.spelled
  rw [Token.piece, he] at hs
  cases hs

theorem segmented_of_tokenize {source : String} {ts : List Token} (h : tokenize source = .ok ts) :
    ∃ gs, ts = gs.map Segment.token ++ [.eof (.behind source.toList)] ∧ Segmented [] gs source.toList := by
  obtain ⟨ps, hp, rfl⟩ := tokenize_eq_ok_iff.mp h
  have hp' : pieces (.behind []) source.toList = .ok ps := hp
  obtain ⟨gs, hgs, hs⟩ := segmented_pieces hp' .start
  exact ⟨gs, by rw [hgs, Position.afterAll_start], hs⟩

theorem spelled_of_tokenize {source : String} {ts : List Token} (h : tokenize source = .ok ts) :
    ∀ t ∈ ts.dropLast, ∃ spelling after, Spelled t.piece spelling after := by
  obtain ⟨gs, rfl, hseg⟩ := segmented_of_tokenize h
  obtain ⟨last, -, -, hstands⟩ := hseg.split
  rw [List.dropLast_concat]
  intro t ht
  obtain ⟨g, hg, rfl⟩ := List.mem_map.mp ht
  obtain ⟨gs₁, gs₂, he⟩ := List.append_of_mem hg
  exact ⟨_, _, (hstands gs₁ g gs₂ he).spelled⟩

theorem eof_of_tokenize {source : String} {ts : List Token} (h : tokenize source = .ok ts) :
    ts = ts.dropLast ++ [.eof (.behind source.toList)] ∧ ∀ t ∈ ts.dropLast, t.kind ≠ .eof := by
  obtain ⟨gs, hts, -⟩ := segmented_of_tokenize h
  refine ⟨by rw [hts, List.dropLast_concat], fun t ht he => ?_⟩
  obtain ⟨spelling, after, hs⟩ := spelled_of_tokenize h t ht
  rw [Token.piece, he] at hs
  cases hs

theorem tokenize_segments {source : String} {ts : List Token} (h : tokenize source = .ok ts) :
    ∃ gs last, ts = gs.map Segment.token ++ [.eof (.behind source.toList)] ∧
      (∀ g ∈ gs, g.token.kind ≠ .eof) ∧
      source.toList = gs.flatMap Segment.text ++ last ∧ (∀ c ∈ last, isBlank c) ∧
      ∀ gs₁ g gs₂, gs = gs₁ ++ g :: gs₂ →
        g.Stands (gs₁.flatMap Segment.text) (gs₂.flatMap Segment.text ++ last) := by
  obtain ⟨gs, hts, hseg⟩ := segmented_of_tokenize h
  obtain ⟨last, hsource, hlast, hstands⟩ := hseg.split
  refine ⟨gs, last, hts, fun g hg => ?_, hsource, hlast, hstands⟩
  obtain ⟨gs₁, gs₂, he⟩ := List.append_of_mem hg
  exact (hstands gs₁ g gs₂ he).kind_ne_eof

theorem tokenize_segments_method :
    let source := "/**x\n*/ md f(int...);// 1..2"
    let ts : List Token := [⟨.javadoc, "x\n", ⟨1, 1⟩⟩, ⟨.keyword .md, "md", ⟨2, 4⟩⟩,
      ⟨.identifier, "f", ⟨2, 7⟩⟩, ⟨.mark .leftParen, "(", ⟨2, 8⟩⟩, ⟨.identifier, "int", ⟨2, 9⟩⟩,
      ⟨.mark .varargs, "...", ⟨2, 12⟩⟩, ⟨.mark .rightParen, ")", ⟨2, 15⟩⟩,
      ⟨.mark .semicolon, ";", ⟨2, 16⟩⟩, ⟨.comment, " 1..2", ⟨2, 17⟩⟩, .eof ⟨2, 24⟩]
    tokenize source = .ok ts ∧ ∃ gs last, ts = gs.map Segment.token ++ [.eof (.behind source.toList)] ∧
      (∀ g ∈ gs, g.token.kind ≠ .eof) ∧
      source.toList = gs.flatMap Segment.text ++ last ∧ (∀ c ∈ last, isBlank c) ∧
      ∀ gs₁ g gs₂, gs = gs₁ ++ g :: gs₂ →
        g.Stands (gs₁.flatMap Segment.text) (gs₂.flatMap Segment.text ++ last) := by
  intro source ts
  have h : tokenize source = .ok ts := by cbv
  exact ⟨h, tokenize_segments h⟩

end ObfuscationMap
