import ObfuscationMap.Proofs.Segments

/-!
Sources that go on. What is put behind a source leaves its pieces as they are, provided that it does not begin
with a character that a word, a number or a run of dots would take in, and that no comment of one line is
still going on. Likewise a source may be broken off behind any of its pieces.
-/

namespace ObfuscationMap

/-- Nothing that ends before the text takes in its first character. -/
def Separates (more : List Char) : Prop := ∀ d ∈ more.head?, ¬ isWordPart d ∧ d ≠ '.'

def HasTokens (cs : List Char) : Prop := ∃ ts, tokenize (String.ofList cs) = .ok ts

/-- Wherever a piece may begin, a comment of one line is followed by its line feed. -/
def LineCommentsEnd (cs : List Char) : Prop :=
  ∀ before text, cs = before ++ '/' :: '/' :: text → HasTokens before → '\n' ∈ text

theorem dots_append {rest more : List Char} (hr : ¬ ['.', '.'] <+: rest) (hm : more.head? ≠ some '.') :
    ¬ ['.', '.'] <+: rest ++ more := by
  intro hp
  match rest, more with
  | [], [] => simp at hp
  | [], d :: more => exact hm (congrArg some (List.cons_prefix_cons.mp hp).1.symm)
  | [c], [] => simp at hp
  | [c], d :: more =>
    obtain ⟨-, hp⟩ := List.cons_prefix_cons.mp hp
    exact hm (congrArg some (List.cons_prefix_cons.mp hp).1.symm)
  | c :: d :: rest, more => exact hr (by simpa using hp)

section spelled

variable {p : Piece} {spelling rest more : List Char}

theorem Spelled.append (h : Spelled p spelling rest) (hm : Separates more)
    (hl : more.head? = some '\n' ∨ (['/', '/'] <+: spelling → rest ≠ [])) :
    Spelled p spelling (rest ++ more) := by
  have hhead : ∀ q : Char → Prop, (∀ d ∈ rest.head?, q d) → (rest = [] → ∀ d ∈ more.head?, q d) →
      ∀ d ∈ (rest ++ more).head?, q d := by
    intro q hr hq
    cases rest with
    | nil => exact hq rfl
    | cons c rest => exact hr
  cases h with
  | word hc hcs hr => exact .word hc hcs (hhead _ hr fun _ d hd => (hm d hd).1)
  | number hc hcs hr =>
    refine .number hc hcs (hhead _ hr fun _ d hd hn => (hm d hd).1 ?_)
    rw [isWordPart, hn, Bool.or_true]
  | mark hd =>
    have hdot : more.head? ≠ some '.' := fun hp => (hm '.' hp).2 rfl
    exact .mark fun hk => dots_append (hd hk) hdot
  | text hq => exact .text hq
  | lineComment hn hr =>
    refine .lineComment hn (hhead (· = '\n') hr fun he d hd => ?_)
    rcases hl with hl | hl
    · rw [hl] at hd
      exact (Option.some.inj hd).symm
    · exact absurd he (hl ⟨_, rfl⟩)
  | blockComment he hs => exact .blockComment he hs
  | javadoc he hs => exact .javadoc he hs

theorem Spelled.of_append (h : Spelled p spelling (rest ++ more)) : Spelled p spelling rest := by
  have hhead : ∀ d ∈ rest.head?, d ∈ (rest ++ more).head? := by
    intro d hd
    cases rest with
    | nil => cases hd
    | cons c rest => exact hd
  cases h with
  | word hc hcs hr => exact .word hc hcs fun d hd => hr d (hhead d hd)
  | number hc hcs hr => exact .number hc hcs fun d hd => hr d (hhead d hd)
  | mark hd => exact .mark fun hk hp => hd hk (hp.trans (List.prefix_append rest more))
  | text hq => exact .text hq
  | lineComment hn hr => exact .lineComment hn fun d hd => hr d (hhead d hd)
  | blockComment he hs => exact .blockComment he hs
  | javadoc he hs => exact .javadoc he hs

theorem Spelled.of_slashes (h : Spelled p spelling rest) (hs : ['/', '/'] <+: spelling) :
    '\n' ∉ spelling ∧ ∀ d ∈ rest.head?, d = '\n' := by
  cases h with
  | @word c cs _ hc _ _ =>
    rw [(List.cons_prefix_cons.mp hs).1.symm] at hc
    cases hc
  | @number c cs _ hc _ _ =>
    rw [(List.cons_prefix_cons.mp hs).1.symm] at hc
    cases hc
  | @mark m _ _ => cases m <;> simp [Mark.spelling] at hs
  | lineComment hn hr => exact ⟨by simpa using hn, hr⟩
  | text _ => simp at hs
  | blockComment _ _ => simp at hs
  | javadoc _ _ => simp at hs

end spelled

section cut

variable {c : Char} {cs rest more : List Char} {k : Cut}

theorem isBlank_of_cut (h : cut c cs = .ok k) (hn : k.piece = none) : isBlank c := by
  obtain ⟨he, hne⟩ := cut_splits h
  have hf := faithful_cut h
  rw [Cut.Faithful, hn] at hf
  obtain ⟨d, ds, hs⟩ := List.exists_cons_of_ne_nil hne
  rw [hs, List.cons_append, List.cons.injEq] at he
  rw [hs] at hf
  exact he.1 ▸ hf d List.mem_cons_self

theorem cut_with (h : cut c cs = .ok k) (hr : ∀ p ∈ k.piece, Spelled p k.spelling rest) :
    ∃ s, k.spelling = c :: s ∧ cut c (s ++ rest) = .ok ⟨k.piece, k.spelling, rest⟩ := by
  have he := cut_eq_append h
  obtain ⟨piece, spelling, kept⟩ := k
  cases piece with
  | none =>
    have hb := isBlank_of_cut h rfl
    rw [cut_blank hb] at h
    cases h
    exact ⟨[], rfl, cut_blank hb rest⟩
  | some p =>
    obtain ⟨d, ds, hs, hcut⟩ := cut_of_spelled (hr p rfl)
    simp only at hs
    subst hs
    rw [List.cons_append, List.cons.injEq] at he
    obtain ⟨rfl, -⟩ := he
    exact ⟨ds, rfl, hcut⟩

theorem spelled_of_cut (h : cut c cs = .ok k) : ∀ p ∈ k.piece, Spelled p k.spelling k.rest := by
  intro p hp
  have hf := faithful_cut h
  rw [Cut.Faithful, hp] at hf
  exact hf

theorem pieces_cut (h : cut c cs = .ok k) (p : Position) : pieces p (c :: cs) =
    (pieces (p.afterAll k.spelling) k.rest).map ((k.piece.map (⟨·, p⟩)).toList ++ ·) := by
  cases hk : k.piece with
  | none =>
    rw [pieces_blank h hk]
    cases pieces (p.afterAll k.spelling) k.rest <;> rfl
  | some q =>
    rw [pieces_piece h hk]
    rfl

end cut

theorem layout_of_pieces {p : Position} {cs : List Char} {ps : List PlacedPiece} (h : pieces p cs = .ok ps) :
    Layout (ps.map PlacedPiece.piece) cs := by
  induction h using pieces_ok_induction with
  | nil => exact .done
  | blank p c cs k ps _ hc hn _ ih =>
    have hb := isBlank_of_cut hc hn
    rw [cut_blank hb] at hc
    cases hc
    exact .blank hb ih
  | piece p c cs k q ps _ hc hs _ ih =>
    rw [cut_eq_append hc]
    exact .piece (spelled_of_cut hc q hs) ih

theorem hasTokens_iff {cs : List Char} (p : Position) : HasTokens cs ↔ ∃ ps, pieces p cs = .ok ps := by
  constructor
  · rintro ⟨ts, ht⟩
    obtain ⟨ps, hp, -⟩ := tokenize_eq_ok_iff.mp ht
    rw [String.toList_ofList] at hp
    obtain ⟨qs, hq, -⟩ := pieces_of_layout (layout_of_pieces hp) p
    exact ⟨qs, hq⟩
  · rintro ⟨ps, hp⟩
    obtain ⟨qs, hq, -⟩ := pieces_of_layout (layout_of_pieces hp) .start
    refine ⟨_, tokenize_eq_ok_iff.mpr ⟨qs, ?_, rfl⟩⟩
    rwa [String.toList_ofList]

theorem hasTokens_nil : HasTokens [] := (hasTokens_iff .start).mpr ⟨[], by rw [pieces]⟩

section cut

variable {c : Char} {cs rest more : List Char} {k : Cut}

theorem hasTokens_cut (h : cut c cs = .ok k) (hr : ∀ p ∈ k.piece, Spelled p k.spelling rest) :
    HasTokens (k.spelling ++ rest) ↔ HasTokens rest := by
  obtain ⟨s, hs, hcut⟩ := cut_with h hr
  have hp := pieces_cut hcut .start
  rw [hasTokens_iff .start, hasTokens_iff (Position.start.afterAll k.spelling)]
  rw [← List.cons_append, ← hs] at hp
  rw [hp]
  cases pieces (Position.start.afterAll k.spelling) rest <;> simp [Except.map]

theorem LineCommentsEnd.behind (h : cut c cs = .ok k) (hl : LineCommentsEnd (c :: cs)) :
    LineCommentsEnd k.rest := by
  intro before text he hb
  refine hl (k.spelling ++ before) text ?_ ?_
  · rw [cut_eq_append h, he, List.append_assoc]
  · refine (hasTokens_cut h fun p hp => ?_).mpr hb
    have hs := spelled_of_cut h p hp
    rw [he] at hs
    exact hs.of_append

theorem cut_append (h : cut c cs = .ok k) (hm : Separates more)
    (hl : more.head? = some '\n' ∨ LineCommentsEnd (c :: cs)) :
    cut c (cs ++ more) = .ok ⟨k.piece, k.spelling, k.rest ++ more⟩ := by
  have hspelled : ∀ p ∈ k.piece, Spelled p k.spelling (k.rest ++ more) := by
    intro p hp
    have hf := spelled_of_cut h p hp
    refine hf.append hm (hl.imp_right fun hl hslash hnil => ?_)
    -- The comment would go on to the end of the source.
    have hn := (hf.of_slashes hslash).1
    obtain ⟨text, htext⟩ := hslash
    have he := cut_eq_append h
    rw [hnil, List.append_nil, ← htext] at he
    rw [← htext] at hn
    exact hn (List.mem_append_right _ (hl [] text he hasTokens_nil))
  obtain ⟨s, hs, hcut⟩ := cut_with h hspelled
  have he := cut_eq_append h
  rw [hs, List.cons_append, List.cons.injEq] at he
  rw [he.2, List.append_assoc]
  exact hcut

end cut

theorem pieces_append {p : Position} {cs more : List Char} {ps : List PlacedPiece} (h : pieces p cs = .ok ps)
    (hm : Separates more) (hl : more.head? = some '\n' ∨ LineCommentsEnd cs) :
    pieces p (cs ++ more) = (pieces (p.afterAll cs) more).map (ps ++ ·) := by
  induction h using pieces_ok_induction with
  | nil p =>
    rw [List.nil_append]
    change pieces p more = (pieces p more).map _
    cases pieces p more <;> rfl
  | blank p c cs k ps _ hc hn _ ih =>
    rw [List.cons_append, pieces_blank (cut_append hc hm hl) hn, ih (hl.imp_right (.behind hc)),
      ← Position.afterAll_append, ← cut_eq_append hc]
  | piece p c cs k q ps _ hc hs _ ih =>
    rw [List.cons_append, pieces_piece (cut_append hc hm hl) hs, ih (hl.imp_right (.behind hc)),
      ← Position.afterAll_append, ← cut_eq_append hc]
    cases pieces (p.afterAll (c :: cs)) more <;> rfl

end ObfuscationMap
