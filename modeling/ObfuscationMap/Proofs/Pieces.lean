import ObfuscationMap.Token.Scan

/-!
Cutting a source into pieces, one equation for each way a cut can go. A piece that is no word is never of
a word's kind.
-/

namespace ObfuscationMap

def TokenKind.isWord : TokenKind → Bool | .identifier | .keyword _ => true | _ => false

section equations

variable {c : Char} {cs : List Char} {k : Cut}

theorem pieces_error {fault : LexFault} (h : cut c cs = .error fault) (p : Position) :
    pieces p (c :: cs) = .error ⟨fault, p⟩ := by
  rw [pieces]
  split
  · next e he => rw [h] at he; cases he; rfl
  · next k' hk => rw [h] at hk; cases hk

theorem pieces_blank (h : cut c cs = .ok k) (hn : k.piece = none) (p : Position) :
    pieces p (c :: cs) = pieces (p.afterAll k.spelling) k.rest := by
  conv => lhs; rw [pieces]
  split
  · next e he => rw [h] at he; cases he
  · next k' hk => rw [h] at hk; cases hk; simp only [hn]

theorem pieces_piece {piece : Piece} (h : cut c cs = .ok k) (hs : k.piece = some piece) (p : Position) :
    pieces p (c :: cs) = (pieces (p.afterAll k.spelling) k.rest).map (⟨piece, p⟩ :: ·) := by
  conv => lhs; rw [pieces]
  split
  · next e he => rw [h] at he; cases he
  · next k' hk => rw [h] at hk; cases hk; simp only [hs]

end equations

/-- Along the cuts of a source that has pieces, from its end to its front. -/
@[elab_as_elim]
theorem pieces_ok_induction
    {motive : ∀ (p : Position) (cs : List Char) (ps : List PlacedPiece), pieces p cs = .ok ps → Prop}
    (nil : ∀ p h, motive p [] [] h)
    (blank : ∀ p c cs k ps h, cut c cs = .ok k → k.piece = none →
      ∀ hr : pieces (p.afterAll k.spelling) k.rest = .ok ps, motive _ _ ps hr → motive p (c :: cs) ps h)
    (piece : ∀ p c cs k q ps h, cut c cs = .ok k → k.piece = some q →
      ∀ hr : pieces (p.afterAll k.spelling) k.rest = .ok ps, motive _ _ ps hr →
        motive p (c :: cs) (⟨q, p⟩ :: ps) h)
    {p : Position} {cs : List Char} {ps : List PlacedPiece} (h : pieces p cs = .ok ps) : motive p cs ps h := by
  induction p, cs using pieces.induct generalizing ps with
  | case1 p =>
    have he : ps = [] := by
      rw [pieces] at h
      exact (Except.ok.inj h).symm
    subst he
    exact nil p h
  | case2 p c cs fault hc =>
    rw [pieces_error hc] at h
    cases h
  | case3 p c cs k hc _ hn ih =>
    have hr := h
    rw [pieces_blank hc hn] at hr
    exact blank p c cs k ps h hc hn hr (ih hr)
  | case4 p c cs k hc _ q hs ih =>
    have hr := h
    rw [pieces_piece hc hs] at hr
    cases hq : pieces (p.afterAll k.spelling) k.rest with
    | error e =>
      rw [hq] at hr
      cases hr
    | ok qs =>
      rw [hq] at hr
      obtain rfl := Except.ok.inj hr
      exact piece p c cs k q qs h hc hs hq (ih hq)

def Piece.Sorted : Piece → Prop
  | .word _ => True
  | .plain kind _ => ¬ kind.isWord

theorem sorted_block {kind : TokenKind} (hk : ¬ kind.isWord) {opening body : List Char} {k : Cut}
    (h : Cut.block kind opening body = .ok k) : ∀ q ∈ k.piece, q.Sorted := by
  unfold Cut.block at h
  split at h
  · cases h
    simpa [Piece.Sorted] using hk
  · cases h

theorem sorted_comment {rest : List Char} {k : Cut} (h : Cut.comment rest = .ok k) :
    ∀ q ∈ k.piece, q.Sorted := by
  unfold Cut.comment at h
  split at h
  · cases h
    simp [Piece.Sorted, TokenKind.isWord]
  · exact sorted_block (by decide) h
  · exact sorted_block (by decide) h
  · exact sorted_block (by decide) h
  · cases h

theorem sorted_cut {c : Char} {rest : List Char} {k : Cut} (h : cut c rest = .ok k) :
    ∀ q ∈ k.piece, q.Sorted := by
  have hm : ∀ m rest, ∀ q ∈ (Cut.mark m rest).piece, q.Sorted := by
    simp [Cut.mark, Piece.Sorted, TokenKind.isWord]
  unfold cut at h
  split at h
  · cases h; simp
  · split at h
    · cases h; exact hm _ _
    · split at h
      · cases h; unfold Cut.dots; split <;> exact hm _ _
      split at h
      · unfold Cut.arrow at h
        split at h
        · cases h; exact hm _ _
        · cases h
      split at h
      · exact sorted_comment h
      split at h
      · unfold Cut.quotation at h
        split at h
        · cases h; simp [Piece.Sorted, TokenKind.isWord]
        · cases h
      split at h
      · cases h; simp [Cut.run, Piece.Sorted, TokenKind.isWord]
      split at h
      · cases h; simp [Cut.run, Piece.Sorted]
      · cases h

theorem sorted_pieces {p : Position} {cs : List Char} {ps : List PlacedPiece} (h : pieces p cs = .ok ps) :
    ∀ q ∈ ps, q.piece.Sorted := by
  induction h using pieces_ok_induction with
  | nil => simp
  | blank _ _ _ _ _ _ _ _ _ ih => exact ih
  | piece p c cs k q ps _ hc hs _ ih => exact List.forall_mem_cons.mpr ⟨sorted_cut hc q hs, ih⟩

end ObfuscationMap
