import ObfuscationMap.Proofs.Pieces

/-!
Sources that are laid out from pieces: the pieces are spelled in order, with any blanks before, between
and after them. A piece must not run into what follows it, so the rest of the source has a say in how it
may be spelled. Cutting such a source gives the pieces back.
-/

namespace ObfuscationMap

inductive Spelled : Piece → List Char → List Char → Prop
  | word {c : Char} {cs rest : List Char} : isWordStart c → (∀ d ∈ cs, isWordPart d) →
      (∀ d ∈ rest.head?, ¬ isWordPart d) → Spelled (.word (c :: cs)) (c :: cs) rest
  | number {c : Char} {cs rest : List Char} : c.isDigit → (∀ d ∈ cs, d.isDigit) →
      (∀ d ∈ rest.head?, ¬ d.isDigit) → Spelled (.plain .number (c :: cs)) (c :: cs) rest
  | mark {m : Mark} {rest : List Char} : (m = .dot → ¬ ['.', '.'] <+: rest) →
      Spelled (.plain (.mark m) m.spelling.toList) m.spelling.toList rest
  | text {cs rest : List Char} : '"' ∉ cs → Spelled (.plain .text cs) ('"' :: (cs ++ ['"'])) rest
  | lineComment {cs rest : List Char} : '\n' ∉ cs → (∀ d ∈ rest.head?, d = '\n') →
      Spelled (.plain .comment cs) ('/' :: '/' :: cs) rest
  | blockComment {cs rest : List Char} : ¬ ['*', '/'] <:+: cs → cs.head? ≠ some '*' →
      Spelled (.plain .comment cs) ('/' :: '*' :: (cs ++ ['*', '/'])) rest
  | javadoc {cs rest : List Char} : ¬ ['*', '/'] <:+: cs → cs.head? ≠ some '/' →
      Spelled (.plain .javadoc cs) ('/' :: '*' :: '*' :: (cs ++ ['*', '/'])) rest

inductive Layout : List Piece → List Char → Prop
  | done : Layout [] []
  | blank {c : Char} {ps : List Piece} {cs : List Char} : isBlank c → Layout ps cs → Layout ps (c :: cs)
  | piece {p : Piece} {ps : List Piece} {spelling rest : List Char} : Spelled p spelling rest →
      Layout ps rest → Layout (p :: ps) (spelling ++ rest)

section run

variable {p : Char → Bool} {cs rest : List Char}

theorem takeWhile_run (hc : ∀ d ∈ cs, p d) (hr : ∀ d ∈ rest.head?, ¬ p d) :
    (cs ++ rest).takeWhile p = cs := by
  rw [List.takeWhile_append_of_pos hc]
  cases rest with
  | nil => rw [List.takeWhile_nil, List.append_nil]
  | cons d rest => rw [List.takeWhile_cons_of_neg (hr d rfl), List.append_nil]

theorem dropWhile_run (hc : ∀ d ∈ cs, p d) (hr : ∀ d ∈ rest.head?, ¬ p d) :
    (cs ++ rest).dropWhile p = rest := by
  rw [List.dropWhile_append_of_pos hc]
  cases rest with
  | nil => rfl
  | cons d rest => rw [List.dropWhile_cons_of_neg (hr d rfl)]

theorem run_eq (piece : List Char → Piece) (c : Char) (hc : ∀ d ∈ cs, p d) (hr : ∀ d ∈ rest.head?, ¬ p d) :
    Cut.run piece p c (cs ++ rest) = ⟨some (piece (c :: cs)), c :: cs, rest⟩ := by
  rw [Cut.run, takeWhile_run hc hr, dropWhile_run hc hr]

end run

section firstPlace

variable {x : Char} {cs ds : List Char}

theorem forall_bne (h : x ∉ cs) : ∀ c ∈ cs, (c != x) = true := by
  intro c hc
  rw [bne_iff_ne]
  rintro rfl
  exact h hc

theorem takeWhile_until (h : x ∉ cs) (rest : List Char) : (cs ++ x :: rest).takeWhile (· != x) = cs :=
  takeWhile_run (forall_bne h) (by simp)

theorem dropWhile_until (h : x ∉ cs) (rest : List Char) :
    (cs ++ x :: rest).dropWhile (· != x) = x :: rest :=
  dropWhile_run (forall_bne h) (by simp)

theorem append_until_inj {rest rest' : List Char} (hc : x ∉ cs) (hd : x ∉ ds) :
    cs ++ x :: rest = ds ++ x :: rest' ↔ cs = ds ∧ rest = rest' := by
  constructor
  · intro h
    have hcut : cs = ds := by rw [← takeWhile_until hc rest, h, takeWhile_until hd]
    subst hcut
    exact ⟨rfl, (List.cons.inj (List.append_cancel_left h)).2⟩
  · rintro ⟨rfl, rfl⟩
    rfl

end firstPlace

theorem not_isDigit_of_isAlpha {c : Char} (h : c.isAlpha) : ¬ c.isDigit := by
  have h' : (decide ('A'.val ≤ c.val ∧ c.val ≤ 'Z'.val) || ('a'.val ≤ c.val && c.val ≤ 'z'.val)) = true := h
  intro hd
  have hd' : ('0'.val ≤ c.val && c.val ≤ '9'.val) = true := hd
  rw [Bool.and_eq_true, decide_eq_true_eq, decide_eq_true_eq] at hd'
  obtain ⟨-, hle⟩ := hd'
  rcases (Bool.or_eq_true _ _).mp h' with h | h
  · obtain ⟨hge, -⟩ := of_decide_eq_true h
    exact absurd (UInt32.le_trans hge hle) (by decide)
  · rw [Bool.and_eq_true, decide_eq_true_eq, decide_eq_true_eq] at h
    exact absurd (UInt32.le_trans h.1 hle) (by decide)

theorem not_isDigit_of_isWordStart {c : Char} (h : isWordStart c) : ¬ c.isDigit := by
  simp only [isWordStart, Bool.or_eq_true, beq_iff_eq] at h
  rcases h with (h | rfl) | rfl
  · exact not_isDigit_of_isAlpha h
  · decide
  · decide

theorem cut_eq_run {c : Char} (h : isWordStart c ∨ c.isDigit) (rest : List Char) :
    cut c rest = if c.isDigit then .ok (.run (.plain .number) Char.isDigit c rest)
      else .ok (.run .word isWordPart c rest) := by
  have hne : ∀ d : Char, ¬ (isWordStart d ∨ d.isDigit) → c ≠ d := fun d hd he => hd (he ▸ h)
  have hb : ¬ isBlank c := by
    simp only [isBlank, Bool.or_eq_true, beq_iff_eq, not_or]
    exact ⟨⟨⟨hne _ (by decide), hne _ (by decide)⟩, hne _ (by decide)⟩, hne _ (by decide)⟩
  have hm : Mark.ofChar? c = none := by
    unfold Mark.ofChar?
    split <;> first | rfl | exact absurd rfl (hne _ (by decide))
  rw [cut, if_neg hb, hm]
  simp only
  rw [if_neg (hne '.' (by decide)), if_neg (hne '<' (by decide)), if_neg (hne '/' (by decide)),
    if_neg (hne '"' (by decide))]
  by_cases hd : c.isDigit
  · rw [if_pos hd, if_pos hd]
  · rw [if_neg hd, if_neg hd, if_pos (h.resolve_right hd)]

theorem untilCommentEnd_cons {c : Char} {cs : List Char} (h : ¬ ['*', '/'] <+: c :: cs) :
    untilCommentEnd (c :: cs) = (untilCommentEnd cs).map fun r => (c :: r.1, r.2) := by
  rw [untilCommentEnd]
  rintro rest rfl rfl
  exact h ⟨rest, rfl⟩

theorem untilCommentEnd_append {cs : List Char} (h : ¬ ['*', '/'] <:+: cs) (rest : List Char) :
    untilCommentEnd (cs ++ '*' :: '/' :: rest) = some (cs, rest) := by
  induction cs with
  | nil => rw [List.nil_append, untilCommentEnd]
  | cons c cs ih =>
    -- A last star has a star behind it, so the end is not met one character early.
    have hc : ¬ ['*', '/'] <+: c :: (cs ++ '*' :: '/' :: rest) := by
      intro hp
      cases cs with
      | nil => simp at hp
      | cons d cs =>
        simp only [List.cons_append, List.cons_prefix_cons] at hp
        obtain ⟨rfl, rfl, -⟩ := hp
        exact h ⟨[], cs, rfl⟩
    have hcs : ¬ ['*', '/'] <:+: cs := fun hi => h (hi.trans (List.suffix_cons c cs).isInfix)
    rw [List.cons_append, untilCommentEnd_cons hc, ih hcs]
    rfl

theorem block_eq {kind : TokenKind} {opening cs : List Char} (h : ¬ ['*', '/'] <:+: cs) (rest : List Char) :
    Cut.block kind opening (cs ++ ['*', '/'] ++ rest) =
      .ok ⟨some (.plain kind cs), opening ++ cs ++ ['*', '/'], rest⟩ := by
  rw [Cut.block, List.append_assoc]
  simp only [List.cons_append, List.nil_append, untilCommentEnd_append h]

theorem cut_blank {c : Char} (hc : isBlank c) (rest : List Char) : cut c rest = .ok ⟨none, [c], rest⟩ := by
  rw [cut, if_pos hc]

theorem cut_slash (rest : List Char) : cut '/' rest = Cut.comment rest := rfl

theorem cut_quote (rest : List Char) : cut '"' rest = Cut.quotation rest := rfl

theorem cut_mark {m : Mark} {rest : List Char} (hd : m = .dot → ¬ ['.', '.'] <+: rest) :
    ∃ c cs, m.spelling.toList = c :: cs ∧
      cut c (cs ++ rest) = .ok ⟨some (.plain (.mark m) m.spelling.toList), m.spelling.toList, rest⟩ := by
  cases m with
  | dot =>
    refine ⟨'.', [], rfl, ?_⟩
    have hdots : Cut.dots rest = .mark .dot rest := by
      unfold Cut.dots
      split
      · next rest => exact absurd ⟨rest, rfl⟩ (hd rfl)
      · rfl
    change Except.ok (Cut.dots rest) = _
    rw [hdots]
    rfl
  | _ => exact ⟨_, _, rfl, rfl⟩

theorem cut_text {cs : List Char} (hq : '"' ∉ cs) (rest : List Char) :
    cut '"' (cs ++ ['"'] ++ rest) = .ok ⟨some (.plain .text cs), '"' :: (cs ++ ['"']), rest⟩ := by
  rw [cut_quote, Cut.quotation, List.append_assoc, List.singleton_append, takeWhile_until hq,
    dropWhile_until hq]
  simp

theorem cut_lineComment {cs rest : List Char} (hn : '\n' ∉ cs) (hr : ∀ d ∈ rest.head?, d = '\n') :
    cut '/' ('/' :: cs ++ rest) = .ok ⟨some (.plain .comment cs), '/' :: '/' :: cs, rest⟩ := by
  have hr' : ∀ d ∈ rest.head?, ¬ (d != '\n') = true := by
    intro d hd
    simp [hr d hd]
  rw [cut_slash, List.cons_append, Cut.comment, takeWhile_run (forall_bne hn) hr',
    dropWhile_run (forall_bne hn) hr']

theorem cut_blockComment {cs : List Char} (he : ¬ ['*', '/'] <:+: cs) (hs : cs.head? ≠ some '*')
    (rest : List Char) : cut '/' ('*' :: (cs ++ ['*', '/']) ++ rest) =
      .ok ⟨some (.plain .comment cs), '/' :: '*' :: (cs ++ ['*', '/']), rest⟩ := by
  have hb : Cut.comment ('*' :: (cs ++ ['*', '/']) ++ rest) =
      Cut.block .comment ['/', '*'] (cs ++ ['*', '/'] ++ rest) := by
    cases cs with
    | nil => rfl
    | cons c cs =>
      -- With another star this would be documentation.
      have hc : c ≠ '*' := fun h => hs (by rw [h]; rfl)
      simp [Cut.comment, hc]
  rw [cut_slash, hb, block_eq he]
  simp

theorem cut_javadoc {cs : List Char} (he : ¬ ['*', '/'] <:+: cs) (hs : cs.head? ≠ some '/')
    (rest : List Char) : cut '/' ('*' :: '*' :: (cs ++ ['*', '/']) ++ rest) =
      .ok ⟨some (.plain .javadoc cs), '/' :: '*' :: '*' :: (cs ++ ['*', '/']), rest⟩ := by
  have hb : Cut.comment ('*' :: '*' :: (cs ++ ['*', '/']) ++ rest) =
      Cut.block .javadoc ['/', '*', '*'] (cs ++ ['*', '/'] ++ rest) := by
    cases cs with
    | nil => rfl
    | cons c cs =>
      -- With a slash behind the stars this would be an empty comment.
      have hc : c ≠ '/' := fun h => hs (by rw [h]; rfl)
      simp [Cut.comment, hc]
  rw [cut_slash, hb, block_eq he]
  simp

theorem cut_of_spelled {p : Piece} {spelling rest : List Char} (h : Spelled p spelling rest) :
    ∃ c cs, spelling = c :: cs ∧ cut c (cs ++ rest) = .ok ⟨some p, spelling, rest⟩ := by
  cases h with
  | word hc hcs hr =>
    refine ⟨_, _, rfl, ?_⟩
    rw [cut_eq_run (.inl hc), if_neg (not_isDigit_of_isWordStart hc), run_eq _ _ hcs hr]
  | number hc hcs hr =>
    refine ⟨_, _, rfl, ?_⟩
    rw [cut_eq_run (.inr hc), if_pos hc, run_eq _ _ hcs hr]
  | mark hd => exact cut_mark hd
  | text hq => exact ⟨_, _, rfl, cut_text hq rest⟩
  | lineComment hn hr => exact ⟨_, _, rfl, cut_lineComment hn hr⟩
  | blockComment he hs => exact ⟨_, _, rfl, cut_blockComment he hs rest⟩
  | javadoc he hs => exact ⟨_, _, rfl, cut_javadoc he hs rest⟩

theorem pieces_of_layout {ps : List Piece} {cs : List Char} (h : Layout ps cs) (p : Position) :
    ∃ qs, pieces p cs = .ok qs ∧ qs.map PlacedPiece.piece = ps := by
  induction h generalizing p with
  | done => exact ⟨[], by rw [pieces], rfl⟩
  | @blank c ps cs hc _ ih =>
    obtain ⟨qs, hq, he⟩ := ih (p.afterAll [c])
    exact ⟨qs, by rw [pieces_blank (cut_blank hc cs) rfl, hq], he⟩
  | @piece piece ps spelling rest hs _ ih =>
    obtain ⟨c, cs, rfl, hcut⟩ := cut_of_spelled hs
    obtain ⟨qs, hq, he⟩ := ih (p.afterAll (c :: cs))
    refine ⟨⟨piece, p⟩ :: qs, ?_, by rw [List.map_cons, he]⟩
    rw [List.cons_append, pieces_piece hcut rfl, hq]
    rfl

end ObfuscationMap
