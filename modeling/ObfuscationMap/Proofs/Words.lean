import Mathlib
import ObfuscationMap.Proofs.Pieces

/-!
What a word is, told from the tokens before it. The scanner keeps a stack of scopes; looking back over
the kinds of the tokens comes to the same. The last brace, semicolon or word of a declaration says whether
a header is open, and without one the innermost open brace says whether only names are expected, which it
does when `aliases` is one of the two tokens before it and no header was open there.

Kinds of earlier tokens are listed with the last one first, as the scanner lists them.
-/

namespace ObfuscationMap

def TokenKind.isBoundary : TokenKind → Bool
  | .mark .leftBrace | .mark .rightBrace | .mark .semicolon => true
  | .keyword k => k.header?.isSome
  | _ => false

def headerWord (before : List TokenKind) : Option Keyword :=
  match before.find? TokenKind.isBoundary with
  | some (.keyword k) => some k
  | _ => none

/-- The kinds before each brace that is still open, innermost first. A closing brace with nothing to
close is passed over. -/
def openBraces : List TokenKind → List (List TokenKind)
  | [] => []
  | .mark .leftBrace :: before => before :: openBraces before
  | .mark .rightBrace :: before => (openBraces before).tail
  | _ :: before => openBraces before

def OpensAliases (before : List TokenKind) : Prop :=
  headerWord before = none ∧ .keyword .aliases ∈ before.take 2

instance (before : List TokenKind) : Decidable (OpensAliases before) := instDecidableAnd

def wordKind (before : List TokenKind) (word : String) : TokenKind :=
  match headerWord before with
  | some k => if k = .importWord ∧ word = Keyword.asWord.spelling then .keyword .asWord else .identifier
  | none =>
    match openBraces before with
    | [] => Scope.freeWord word
    | brace :: _ => if OpensAliases brace then .identifier else Scope.freeWord word

theorem header?_of_headerWord {before : List TokenKind} {k : Keyword} (h : headerWord before = some k) :
    k.header?.isSome := by
  unfold headerWord at h
  split at h
  · next k' hf =>
    cases h
    have hb : (TokenKind.keyword k).isBoundary := List.find?_some (p := TokenKind.isBoundary) hf
    exact hb
  · cases h

theorem headerWord_other {k : TokenKind} (hk : ¬ k.isBoundary) (before : List TokenKind) :
    headerWord (k :: before) = headerWord before := by
  rw [headerWord, List.find?_cons_of_neg hk, headerWord]

theorem ofRecent_eq_aliases_iff (kinds : List TokenKind) :
    Block.ofRecent kinds = .aliases ↔ .keyword .aliases ∈ kinds := by
  unfold Block.ofRecent
  split
  · simp_all
  · split <;> [simp_all; split <;> simp_all]

namespace ScanState

/-- The stack holds what the kinds tell: the open header, and which of the open blocks hold aliases. -/
structure Recalls (s : ScanState) : Prop where
  header : s.scopes.header = (headerWord s.emitted).bind Keyword.header?
  blocks : List.Forall₂ (fun b before => b = Block.aliases ↔ OpensAliases before) s.scopes.blocks
    (openBraces s.emitted)

theorem recalls_start : start.Recalls := ⟨rfl, .nil⟩

def push (s : ScanState) (k : TokenKind) : ScanState := ⟨s.scopesAfter k, k :: s.emitted⟩

theorem Recalls.enter {s : ScanState} (h : s.Recalls) : (s.push (.mark .leftBrace)).Recalls where
  header := rfl
  blocks := by
    refine .cons ?_ h.blocks
    cases hw : headerWord s.emitted with
    | none =>
      have hn : s.scopes.header = none := by rw [h.header, hw]; rfl
      simp [hn, ofRecent_eq_aliases_iff, OpensAliases, hw, braceWindow]
    | some k =>
      obtain ⟨d, hd⟩ := Option.isSome_iff_exists.mp (header?_of_headerWord hw)
      have hs : s.scopes.header = some d := by rw [h.header, hw]; exact hd
      have hb : d.body ≠ .aliases := by cases d <;> decide
      simp [hs, hb, OpensAliases, hw]

theorem Recalls.leave {s : ScanState} (h : s.Recalls) : (s.push (.mark .rightBrace)).Recalls where
  header := rfl
  blocks := by
    obtain ⟨⟨header, blocks⟩, emitted⟩ := s
    have hb := h.blocks
    change List.Forall₂ _ blocks (openBraces emitted) at hb
    change List.Forall₂ _ blocks.tail (openBraces emitted).tail
    generalize openBraces emitted = braces at hb ⊢
    cases hb with
    | nil => exact .nil
    | cons _ ht => exact ht

theorem Recalls.other {s : ScanState} (h : s.Recalls) {k : TokenKind} (hk : ¬ k.isBoundary)
    (hs : s.scopesAfter k = s.scopes) (hb : openBraces (k :: s.emitted) = openBraces s.emitted) :
    (s.push k).Recalls where
  header := by
    change (s.scopesAfter k).header = (headerWord (k :: s.emitted)).bind Keyword.header?
    rw [hs, headerWord_other hk, h.header]
  blocks := by
    change List.Forall₂ _ (s.scopesAfter k).blocks (openBraces (k :: s.emitted))
    rw [hs, hb]
    exact h.blocks

theorem Recalls.push {s : ScanState} (h : s.Recalls) (k : TokenKind) : (s.push k).Recalls := by
  cases k with
  | mark m =>
    cases m with
    | leftBrace => exact h.enter
    | rightBrace => exact h.leave
    | semicolon => exact ⟨rfl, h.blocks⟩
    | _ => exact h.other (by decide) rfl rfl
  | keyword w =>
    cases w with
    | pkg | importWord | classWord | md | fd => exact ⟨rfl, h.blocks⟩
    | aliases | asWord | removed => exact h.other (by decide) rfl rfl
  | _ => exact h.other (by decide) rfl rfl

theorem Recalls.step {s : ScanState} (h : s.Recalls) (p : Piece) : (s.step p).Recalls := h.push _

theorem classify_header {k : Keyword} {h : Header} (hk : k.header? = some h) (word : String) :
    (Scope.header h).classify word =
      if k = .importWord ∧ word = Keyword.asWord.spelling then .keyword .asWord else .identifier := by
  cases k with
  | importWord =>
    cases hk
    simp [Scope.classify]
  | pkg | classWord | md | fd =>
    cases hk
    simp [Scope.classify]
  | aliases | asWord | removed => cases hk

theorem classify_block {b : Block} {brace : List TokenKind} (hb : b = .aliases ↔ OpensAliases brace)
    (word : String) :
    (Scope.block b).classify word = if OpensAliases brace then .identifier else Scope.freeWord word := by
  by_cases ho : OpensAliases brace
  · rw [if_pos ho, hb.mpr ho]
    rfl
  · rw [if_neg ho]
    have hne : b ≠ .aliases := fun he => ho (hb.mp he)
    cases b with
    | aliases => exact absurd rfl hne
    | _ => rfl

theorem Recalls.classify {s : ScanState} (h : s.Recalls) (word : String) :
    s.scopes.top.classify word = wordKind s.emitted word := by
  obtain ⟨⟨header, blocks⟩, emitted⟩ := s
  have hh := h.header
  have hb := h.blocks
  dsimp only at hh hb ⊢
  rw [wordKind]
  cases hw : headerWord emitted with
  | some k =>
    obtain ⟨d, hd⟩ := Option.isSome_iff_exists.mp (header?_of_headerWord hw)
    rw [hh, hw, Option.bind_some, hd]
    exact classify_header hd word
  | none =>
    rw [hh, hw, Option.bind_none]
    generalize openBraces emitted = braces at hb ⊢
    cases hb with
    | nil => rfl
    | cons hx _ => exact classify_block hx word

end ScanState

def kindsBefore (ts : List Token) (i : Nat) : List TokenKind := ((ts.take i).map (·.kind)).reverse

namespace ScanState

theorem kind_of_tokens {s : ScanState} (hs : s.Recalls) (ps : List PlacedPiece) {i : Nat} {p : PlacedPiece}
    (hp : ps[i]? = some p) : ∃ s' : ScanState, s'.Recalls ∧
      s'.emitted = kindsBefore (s.tokens ps) i ++ s.emitted ∧ (s.tokens ps)[i]? = some (s'.token p) := by
  induction ps generalizing s i with
  | nil => cases hp
  | cons q ps ih =>
    cases i with
    | zero =>
      cases hp
      exact ⟨s, hs, rfl, rfl⟩
    | succ i =>
      obtain ⟨s', hs', he, ht⟩ := ih (hs.step q.piece) hp
      refine ⟨s', hs', ?_, ht⟩
      rw [he]
      simp [kindsBefore, tokens, step, token]

end ScanState

theorem isWord_freeWord (w : String) : (Scope.freeWord w).isWord := by
  unfold Scope.freeWord
  split <;> rfl

theorem isWord_classify (s : Scope) (w : String) : (s.classify w).isWord := by
  cases s with
  | script => exact isWord_freeWord w
  | header h =>
    cases h with
    | importPath =>
      rw [Scope.classify]
      split <;> rfl
    | _ => rfl
  | block b =>
    cases b with
    | aliases => rfl
    | _ => exact isWord_freeWord w

namespace ScanState

theorem length_tokens (s : ScanState) (ps : List PlacedPiece) : (s.tokens ps).length = ps.length := by
  induction ps generalizing s with
  | nil => rfl
  | cons p ps ih => rw [tokens, List.length_cons, List.length_cons, ih]

end ScanState

theorem kindsBefore_append {ts us : List Token} {i : Nat} (h : i ≤ ts.length) :
    kindsBefore (ts ++ us) i = kindsBefore ts i := by
  rw [kindsBefore, List.take_append_of_le_length h, kindsBefore]

theorem ScanState.word_of_token {s : ScanState} (hs : s.Recalls) {p : PlacedPiece} (hp : p.piece.Sorted) :
    ((s.token p).kind.isWord ↔
      ∃ w, p = ⟨.word w, (s.token p).position⟩ ∧ (s.token p).lexeme = String.ofList w) ∧
    ((s.token p).kind.isWord → (s.token p).kind = wordKind s.emitted (s.token p).lexeme) := by
  obtain ⟨piece, place⟩ := p
  cases piece with
  | word w =>
    refine ⟨⟨fun _ => ⟨w, rfl, rfl⟩, fun _ => isWord_classify _ _⟩, fun _ => ?_⟩
    exact hs.classify (String.ofList w)
  | plain kind cs =>
    have hn : ¬ (s.token ⟨.plain kind cs, place⟩).kind.isWord := hp
    refine ⟨⟨fun hw => absurd hw hn, ?_⟩, fun hw => absurd hw hn⟩
    rintro ⟨w, hw, -⟩
    cases hw

theorem tokenize_eq_ok_iff {source : String} {ts : List Token} : tokenize source = .ok ts ↔
    ∃ ps, pieces .start source.toList = .ok ps ∧
      ts = ScanState.start.tokens ps ++ [.eof (Position.start.afterAll source.toList)] := by
  rw [tokenize]
  cases pieces .start source.toList with
  | error e => simp [Except.map]
  | ok ps => simp [Except.map, eq_comm]

theorem tokenize_eq_ok {source : String} {ts : List Token} (h : tokenize source = .ok ts) :
    ∃ ps p, pieces .start source.toList = .ok ps ∧ ts = ScanState.start.tokens ps ++ [.eof p] := by
  obtain ⟨ps, hp, hts⟩ := tokenize_eq_ok_iff.mp h
  exact ⟨ps, _, hp, hts⟩

theorem word_kinds {source : String} {ts : List Token} (h : tokenize source = .ok ts) :
    ∃ ps, pieces .start source.toList = .ok ps ∧ ∀ i t, ts[i]? = some t →
      (t.kind.isWord ↔ ∃ w, ps[i]? = some ⟨.word w, t.position⟩ ∧ t.lexeme = String.ofList w) ∧
      (t.kind.isWord → t.kind = wordKind (kindsBefore ts i) t.lexeme) := by
  obtain ⟨ps, e, hp, rfl⟩ := tokenize_eq_ok h
  refine ⟨ps, hp, fun i t ht => ?_⟩
  have hlen := ScanState.start.length_tokens ps
  by_cases hi : i < ps.length
  · obtain ⟨p, hq⟩ : ∃ p, ps[i]? = some p := ⟨_, List.getElem?_eq_getElem hi⟩
    obtain ⟨s, hs, he, hk⟩ := ScanState.kind_of_tokens ScanState.recalls_start ps hq
    have hb : s.emitted = kindsBefore (ScanState.start.tokens ps) i := he.trans (List.append_nil _)
    rw [List.getElem?_append_left (by omega), hk] at ht
    cases ht
    rw [kindsBefore_append (by omega), hq, ← hb]
    simp only [Option.some.injEq]
    exact ScanState.word_of_token hs (sorted_pieces hp p (List.mem_of_getElem? hq))
  · -- Behind the pieces there is only the end of input, which is no word.
    rw [List.getElem?_append_right (by omega), List.getElem?_singleton] at ht
    split at ht
    · cases ht
      rw [List.getElem?_eq_none (by omega)]
      simp [Token.eof, TokenKind.isWord]
    · cases ht

theorem word_kinds_import :
    let ts : List Token := [⟨.keyword .importWord, "import", ⟨1, 1⟩⟩, ⟨.identifier, "a", ⟨1, 8⟩⟩,
      ⟨.keyword .asWord, "as", ⟨1, 10⟩⟩, ⟨.identifier, "md", ⟨1, 13⟩⟩, ⟨.mark .semicolon, ";", ⟨1, 15⟩⟩,
      .eof ⟨1, 16⟩]
    tokenize "import a as md;" = .ok ts ∧ ∃ ps, pieces .start "import a as md;".toList = .ok ps ∧
      ∀ i t, ts[i]? = some t →
        (t.kind.isWord ↔ ∃ w, ps[i]? = some ⟨.word w, t.position⟩ ∧ t.lexeme = String.ofList w) ∧
        (t.kind.isWord → t.kind = wordKind (kindsBefore ts i) t.lexeme) := by
  intro ts
  have h : tokenize "import a as md;" = .ok ts := by cbv
  exact ⟨h, word_kinds h⟩

end ObfuscationMap
