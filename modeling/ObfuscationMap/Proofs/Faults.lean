import ObfuscationMap.Proofs.Continuation

/-!
Where a source has no tokens. The scanner stops at the first text from which nothing can be cut: quoted text or
a comment that does not end, or a character that begins nothing. What stands before it is a source of its own,
and there is no other way to split the source like that. The error names the fault and where it begins.
-/

namespace ObfuscationMap

structure BeginsNothing (c : Char) : Prop where
  blank : ¬ isBlank c
  mark : c ∉ ['\x7b', '\x7d', '(', ')', '[', ']', ';', ',', '=', '.', '<', '/', '"']
  digit : ¬ c.isDigit
  word : ¬ isWordStart c

/-- A text from whose front nothing can be cut, and why. -/
inductive Faulty : List Char → LexFault → Prop
  | text {cs : List Char} : '"' ∉ cs → Faulty ('"' :: cs) .unterminatedString
  | comment {cs : List Char} : ¬ ['*', '/'] <:+: cs → Faulty ('/' :: '*' :: cs) .unterminatedComment
  | angle {cs : List Char} : cs.head? ≠ some '-' → Faulty ('<' :: cs) (.unexpectedCharacter '<')
  | slash {cs : List Char} : cs.head? ≠ some '/' → cs.head? ≠ some '*' →
      Faulty ('/' :: cs) (.unexpectedCharacter '/')
  | other {c : Char} {cs : List Char} : BeginsNothing c → Faulty (c :: cs) (.unexpectedCharacter c)

section cut

variable {c : Char} {cs : List Char} {fault : LexFault}

theorem untilCommentEnd_eq_none_iff : untilCommentEnd cs = none ↔ ¬ ['*', '/'] <:+: cs := by
  fun_induction untilCommentEnd cs with
  | case1 => simp
  | case2 rest => exact iff_of_false (by simp) fun h => h ⟨[], rest, rfl⟩
  | case3 c cs hc ih =>
    have hp : ¬ ['*', '/'] <+: c :: cs := by
      rintro ⟨rest, he⟩
      cases he
      exact hc rest rfl rfl
    rw [Option.map_eq_none_iff, ih, List.infix_cons_iff, not_or]
    exact (and_iff_right hp).symm

theorem block_eq_error_iff {kind : TokenKind} {opening : List Char} :
    Cut.block kind opening cs = .error fault ↔ fault = .unterminatedComment ∧ ¬ ['*', '/'] <:+: cs := by
  rw [← untilCommentEnd_eq_none_iff, Cut.block]
  cases untilCommentEnd cs <;> simp [eq_comm]

theorem comment_eq_error_iff : Cut.comment ('*' :: cs) = .error fault ↔
    fault = .unterminatedComment ∧ ¬ ['*', '/'] <:+: cs := by
  unfold Cut.comment
  split
  · next h => cases h
  · next rest h =>
    cases h
    rw [block_eq_error_iff]
  · next rest hr h =>
    cases h
    -- The star that makes documentation of the comment is no part of its end.
    have hp : ¬ ['*', '/'] <+: '*' :: rest := by
      rintro ⟨more, he⟩
      cases he
      exact hr more rfl
    rw [block_eq_error_iff, List.infix_cons_iff, not_or, and_iff_right hp]
  · next rest _ _ h =>
    cases h
    rw [block_eq_error_iff]
  · next h => exact absurd rfl (h cs)

theorem markOfChar_eq_none (h : c ∉ ['\x7b', '\x7d', '(', ')', '[', ']', ';', ',', '=']) :
    Mark.ofChar? c = none := by
  unfold Mark.ofChar?
  split <;> simp_all

theorem cut_faulty (h : Faulty (c :: cs) fault) : cut c cs = .error fault := by
  cases h with
  | text hq =>
    have hd : cs.dropWhile (· != '"') = [] := List.dropWhile_eq_nil_iff.mpr (forall_bne hq)
    rw [cut_quote, Cut.quotation]
    simp only [hd]
  | comment he => exact comment_eq_error_iff.mpr ⟨rfl, he⟩
  | angle hh =>
    change Cut.arrow cs = _
    unfold Cut.arrow
    split
    · exact absurd rfl hh
    · rfl
  | slash hs ht =>
    rw [cut_slash]
    unfold Cut.comment
    split
    · exact absurd rfl hs
    · exact absurd rfl ht
    · exact absurd rfl ht
    · exact absurd rfl ht
    · rfl
  | other hc =>
    have hm := hc.mark
    simp only [List.mem_cons, not_or] at hm
    rw [cut, if_neg hc.blank, markOfChar_eq_none (by simp [hm])]
    simp [hm, hc.digit, hc.word]

theorem faulty_of_comment (h : Cut.comment cs = .error fault) : Faulty ('/' :: cs) fault := by
  by_cases ht : cs.head? = some '*'
  · obtain ⟨cs, rfl⟩ := List.head?_eq_some_iff.mp ht
    obtain ⟨rfl, he⟩ := comment_eq_error_iff.mp h
    exact .comment he
  · unfold Cut.comment at h
    split at h
    · cases h
    · exact absurd rfl ht
    · exact absurd rfl ht
    · exact absurd rfl ht
    · next hs _ _ _ =>
      cases h
      refine .slash (fun he => ?_) ht
      obtain ⟨rest, rfl⟩ := List.head?_eq_some_iff.mp he
      exact hs rest rfl

theorem faulty_of_arrow (h : Cut.arrow cs = .error fault) : Faulty ('<' :: cs) fault := by
  unfold Cut.arrow at h
  split at h
  · cases h
  · next hh =>
    cases h
    refine .angle fun he => ?_
    obtain ⟨rest, rfl⟩ := List.head?_eq_some_iff.mp he
    exact hh rest rfl

theorem faulty_of_quotation (h : Cut.quotation cs = .error fault) : Faulty ('"' :: cs) fault := by
  unfold Cut.quotation at h
  split at h
  · cases h
  · next hd =>
    cases h
    refine .text fun hq => ?_
    simpa using List.dropWhile_eq_nil_iff.mp hd _ hq

theorem faulty_of_cut (h : cut c cs = .error fault) : Faulty (c :: cs) fault := by
  unfold cut at h
  split at h
  · cases h
  next hblank =>
  split at h
  · cases h
  next hmark =>
  split at h
  · cases h
  next hdot =>
  split at h
  · next hc => exact hc ▸ faulty_of_arrow h
  next hangle =>
  split at h
  · next hc => exact hc ▸ faulty_of_comment h
  next hslash =>
  split at h
  · next hc => exact hc ▸ faulty_of_quotation h
  next hquote =>
  split at h
  · cases h
  next hdigit =>
  split at h
  · cases h
  next hword =>
  cases h
  refine .other ⟨hblank, fun hm => ?_, hdigit, hword⟩
  simp only [List.mem_cons, hdot, hangle, hslash, hquote, List.not_mem_nil, or_false] at hm
  rcases hm with rfl | rfl | rfl | rfl | rfl | rfl | rfl | rfl | rfl <;> cases hmark

theorem cut_eq_error_iff : cut c cs = .error fault ↔ Faulty (c :: cs) fault := ⟨faulty_of_cut, cut_faulty⟩

end cut

namespace Faulty

variable {q : List Char} {fault : LexFault}

theorem pieces_eq (h : Faulty q fault) (p : Position) : pieces p q = .error ⟨fault, p⟩ := by
  cases q with
  | nil => cases h
  | cons c cs => exact pieces_error (cut_eq_error_iff.mpr h) p

theorem not_hasTokens (h : Faulty q fault) : ¬ HasTokens q := by
  rw [hasTokens_iff .start, h.pieces_eq]
  simp

theorem separates (h : Faulty q fault) : Separates q := by
  intro d hd
  cases h with
  | @other c cs hc =>
    obtain rfl := Option.some.inj hd
    refine ⟨?_, fun he => hc.mark (by simp [he])⟩
    rw [isWordPart, Bool.or_eq_true, not_or]
    exact ⟨hc.word, hc.digit⟩
  | _ =>
    obtain rfl := Option.some.inj hd
    decide

theorem head?_ne_newline (h : Faulty q fault) : q.head? ≠ some '\n' := by
  intro hn
  cases h with
  | other hc =>
    obtain rfl := Option.some.inj hn
    exact hc.blank (by decide)
  | _ => cases hn

end Faulty

section within

variable {before more cs spelling rest : List Char}

/-- Before a slash in quoted text the quotation is open. -/
theorem not_hasTokens_text (hq : '"' ∉ cs) (he : '"' :: (cs ++ ['"']) = before ++ '/' :: more) :
    ¬ HasTokens before := by
  cases before with
  | nil => cases he
  | cons d before =>
    rw [List.cons_append, List.cons.injEq] at he
    obtain ⟨rfl, he⟩ := he
    have hp : before <+: cs := by
      refine (List.prefix_concat_iff.mp ⟨_, he.symm⟩).resolve_left fun hb => ?_
      simp [hb] at he
    exact (Faulty.text fun hm => hq (hp.subset hm)).not_hasTokens

theorem not_hasTokens_comment (hn : ¬ ['*', '/'] <:+: cs)
    (he : '/' :: '*' :: (cs ++ ['*', '/']) = before ++ '/' :: more) (hm : more.head? ≠ some '*') :
    ¬ HasTokens before := by
  match before, he with
  | [], he =>
    cases he
    exact absurd rfl hm
  | [d], he => cases he
  | d :: e :: before, he =>
    rw [List.cons_append, List.cons_append, List.cons.injEq, List.cons.injEq, List.append_cons cs] at he
    obtain ⟨rfl, rfl, he⟩ := he
    have hp : before <+: cs ++ ['*'] := by
      refine (List.prefix_concat_iff.mp ⟨_, he.symm⟩).resolve_left fun hb => ?_
      simp [hb] at he
    refine (Faulty.comment fun hi => ?_).not_hasTokens
    rcases List.infix_concat_iff.mp (hi.trans hp.isInfix) with hs | hi
    · simpa using hs.getLast (by simp)
    · exact hn hi

theorem Spelled.slashes_of_within {p : Piece} (h : Spelled p spelling rest)
    (hs : spelling = before ++ '/' :: more) (hb : HasTokens before) (hm : more.head? ≠ some '*') :
    ['/', '/'] <+: spelling := by
  have hmem : '/' ∈ spelling := by simp [hs]
  cases h with
  | word hc hcs _ =>
    rcases List.mem_cons.mp hmem with rfl | hmem
    · cases hc
    · exact absurd (hcs _ hmem) (by decide)
  | number hc hcs _ =>
    rcases List.mem_cons.mp hmem with rfl | hmem
    · cases hc
    · exact absurd (hcs _ hmem) (by decide)
  | @mark m _ _ => cases m <;> simp [Mark.spelling] at hmem
  | text hq => exact absurd hb (not_hasTokens_text hq hs)
  | lineComment _ _ => exact ⟨_, rfl⟩
  | blockComment he _ => exact absurd hb (not_hasTokens_comment he hs hm)
  | @javadoc cs _ he hh =>
    have he' : ¬ ['*', '/'] <:+: '*' :: cs := by
      rw [List.infix_cons_iff, not_or]
      refine ⟨fun hp => hh ?_, he⟩
      obtain ⟨more, rfl⟩ := (List.cons_prefix_cons.mp hp).2
      rfl
    exact absurd hb (not_hasTokens_comment he' hs hm)

theorem LineCommentsEnd.cons {c : Char} {k : Cut} {p q : List Char} {fault : LexFault}
    (h : cut c cs = .ok k) (he : k.rest = p ++ q) (hq : Faulty q fault) (hl : LineCommentsEnd p) :
    LineCommentsEnd (k.spelling ++ p) := by
  have hrest : ∀ before text, p = before ++ '/' :: '/' :: text → HasTokens (k.spelling ++ before) →
      '\n' ∈ text := by
    intro before text hp hb
    refine hl before text hp ((hasTokens_cut h fun piece hpiece => ?_).mp hb)
    have hs := spelled_of_cut h piece hpiece
    rw [he, hp, List.append_assoc] at hs
    exact hs.of_append
  intro before text hp hb
  rcases List.append_eq_append_iff.mp hp with ⟨a, ha, hp'⟩ | ⟨a, ha, hp'⟩
  · exact hrest a text hp' (ha ▸ hb)
  cases a with
  | nil =>
    rw [List.append_nil] at ha
    exact hrest [] text hp'.symm (by rwa [List.append_nil, ha])
  | cons d a =>
    rw [List.cons_append, List.cons.injEq] at hp'
    obtain ⟨rfl, hp'⟩ := hp'
    have hm : a.head? ≠ some '*' := by
      rintro hh
      obtain ⟨as, rfl⟩ := List.head?_eq_some_iff.mp hh
      cases hp'
    cases hk : k.piece with
    | none =>
      have hf := faithful_cut h
      rw [Cut.Faithful, hk] at hf
      exact absurd (hf '/' (by simp [ha])) (by decide)
    | some piece =>
      have hs := spelled_of_cut h piece hk
      obtain ⟨hn, hr⟩ := hs.of_slashes (hs.slashes_of_within ha hb hm)
      rw [he] at hr
      cases p with
      | nil =>
        cases q with
        | nil => cases hq
        | cons x q => exact absurd (congrArg some (hr x rfl)) hq.head?_ne_newline
      | cons x p =>
        obtain rfl := hr x rfl
        have hmem : '\n' ∈ '/' :: text := hp' ▸ List.mem_append_right a List.mem_cons_self
        simpa using hmem

end within

/-- The first text is a source with tokens, and the second one begins with the fault. -/
structure StopsAt (source p q : List Char) (fault : LexFault) : Prop where
  split : source = p ++ q
  tokens : HasTokens p
  lines : LineCommentsEnd p
  faulty : Faulty q fault

theorem StopsAt.cons {c : Char} {cs : List Char} {k : Cut} (hc : cut c cs = .ok k) {p q : List Char}
    {fault : LexFault} (h : StopsAt k.rest p q fault) : StopsAt (c :: cs) (k.spelling ++ p) q fault where
  split := by rw [cut_eq_append hc, h.split, List.append_assoc]
  tokens := by
    refine (hasTokens_cut hc fun piece hpiece => ?_).mpr h.tokens
    have hs := spelled_of_cut hc piece hpiece
    rw [h.split] at hs
    exact hs.of_append
  lines := h.lines.cons hc h.split h.faulty
  faulty := h.faulty

theorem pieces_of_stopsAt {source p q : List Char} {fault : LexFault} (h : StopsAt source p q fault)
    (place : Position) : pieces place source = .error ⟨fault, place.afterAll p⟩ := by
  obtain ⟨ps, hp⟩ := (hasTokens_iff place).mp h.tokens
  rw [h.split, pieces_append hp h.faulty.separates (.inr h.lines), h.faulty.pieces_eq]
  rfl

theorem stopsAt_of_pieces {place : Position} {source : List Char} {e : LexError}
    (h : pieces place source = .error e) :
    ∃ p q, StopsAt source p q e.fault ∧ e.position = place.afterAll p := by
  induction place, source using pieces.induct with
  | case1 place =>
    rw [pieces] at h
    cases h
  | case2 place c cs fault hc =>
    rw [pieces_error hc] at h
    cases h
    refine ⟨[], c :: cs, ⟨rfl, hasTokens_nil, ?_, cut_eq_error_iff.mp hc⟩, rfl⟩
    intro before text he
    simp at he
  | case3 place c cs k hc _ hn ih =>
    rw [pieces_blank hc hn] at h
    obtain ⟨p, q, hstop, hp⟩ := ih h
    exact ⟨_, q, hstop.cons hc, hp.trans (Position.afterAll_append ..).symm⟩
  | case4 place c cs k hc _ piece hs ih =>
    rw [pieces_piece hc hs] at h
    have hr : pieces (place.afterAll k.spelling) k.rest = .error e := by
      cases hr : pieces (place.afterAll k.spelling) k.rest with
      | error e' =>
        rw [hr] at h
        exact h
      | ok ps =>
        rw [hr] at h
        cases h
    obtain ⟨p, q, hstop, hp⟩ := ih hr
    exact ⟨_, q, hstop.cons hc, hp.trans (Position.afterAll_append ..).symm⟩

theorem Position.eq_nil_of_afterAll {p : Position} {cs : List Char} (h : p.afterAll cs = p) : cs = [] := by
  have hlater : ∀ cs : List Char, ∀ p : Position, p.line < (p.afterAll cs).line ∨
      p.line = (p.afterAll cs).line ∧ (p.afterAll cs).column = p.column + cs.length := by
    intro cs
    induction cs with
    | nil => exact fun p => .inr ⟨rfl, rfl⟩
    | cons c cs ih =>
      intro p
      have hc := ih (p.after c)
      change p.line < ((p.after c).afterAll cs).line ∨ p.line = ((p.after c).afterAll cs).line ∧
        ((p.after c).afterAll cs).column = p.column + (cs.length + 1)
      rw [after] at hc ⊢
      split at hc <;> simp_all <;> omega
  have hl := hlater cs p
  rw [h] at hl
  exact List.length_eq_zero_iff.mp (by omega)

theorem behind_injective {p p' q q' : List Char} (he : p ++ q = p' ++ q')
    (hb : Position.behind p = .behind p') : p = p' := by
  have haux : ∀ p a : List Char, Position.behind p = .behind (p ++ a) → a = [] := by
    intro p a h
    rw [← Position.afterAll_behind] at h
    exact Position.eq_nil_of_afterAll h.symm
  rcases List.append_eq_append_iff.mp he with ⟨a, rfl, -⟩ | ⟨a, rfl, -⟩
  · rw [haux p a hb, List.append_nil]
  · rw [haux p' a hb.symm, List.append_nil]

theorem tokenize_eq_error_iff {source : String} {e : LexError} :
    tokenize source = .error e ↔ pieces .start source.toList = .error e := by
  rw [tokenize]
  cases pieces .start source.toList <;> simp [Except.map]

/-- A source has no tokens exactly if it can be split at a fault. There is one such split, and the error is about
it. -/
theorem tokenize_error_iff (source : String) :
    ((∃ e, tokenize source = .error e) ↔ ∃ p q fault, StopsAt source.toList p q fault) ∧
    ∀ p q fault, StopsAt source.toList p q fault → tokenize source = .error ⟨fault, .behind p⟩ ∧
      ∀ p' q' fault', StopsAt source.toList p' q' fault' → p' = p ∧ q' = q ∧ fault' = fault := by
  have herror : ∀ p q fault, StopsAt source.toList p q fault →
      tokenize source = .error ⟨fault, .behind p⟩ := by
    intro p q fault h
    rw [tokenize_eq_error_iff, pieces_of_stopsAt h, Position.afterAll_start]
  refine ⟨⟨?_, fun ⟨p, q, fault, h⟩ => ⟨_, herror p q fault h⟩⟩, fun p q fault h => ⟨herror p q fault h, ?_⟩⟩
  · rintro ⟨e, he⟩
    obtain ⟨p, q, h, -⟩ := stopsAt_of_pieces (tokenize_eq_error_iff.mp he)
    exact ⟨p, q, e.fault, h⟩
  · intro p' q' fault' h'
    have hsame := (herror p q fault h).symm.trans (herror p' q' fault' h')
    simp only [Except.error.injEq, LexError.mk.injEq] at hsame
    obtain rfl := behind_injective (h'.split.symm.trans h.split) hsame.2.symm
    exact ⟨rfl, List.append_cancel_left (h'.split.symm.trans h.split), hsame.1.symm⟩

theorem tokenize_error_iff_stars :
    let source := "//\"\n/**"
    let p := "//\"\n".toList
    let q := "/**".toList
    let fault := LexFault.unterminatedComment
    StopsAt source.toList p q fault ∧ tokenize source = .error ⟨fault, .behind p⟩ ∧
      ∀ p' q' fault', StopsAt source.toList p' q' fault' → p' = p ∧ q' = q ∧ fault' = fault := by
  intro source p q fault
  have h : StopsAt source.toList p q fault := {
    split := by decide
    tokens := ⟨[⟨.comment, "\"", ⟨1, 1⟩⟩, .eof ⟨2, 1⟩], by cbv⟩
    lines := by
      intro before text he _
      have hp : p = ['/', '/', '"', '\n'] := by decide
      simp [hp, List.cons_eq_append_iff] at he
      simp [he]
    faulty := Faulty.comment (by decide) }
  exact ⟨h, (tokenize_error_iff source).2 p q fault h⟩

end ObfuscationMap
