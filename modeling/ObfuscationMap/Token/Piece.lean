import ObfuscationMap.Token

/-!
Cutting a source into pieces. What a piece is depends on its own characters alone: blanks, words,
numbers, quoted text, comments and marks. Whether a word is a keyword is decided later, by the scope it
stands in.

`cut` takes one piece from the front of a source and keeps what it was spelled with, so that nothing is
lost (`cut_eq_append`). `pieces` cuts until nothing is left and notes where each piece stands.
-/

namespace ObfuscationMap

inductive Piece
  | word (characters : List Char)
  | plain (kind : TokenKind) (characters : List Char)
  deriving DecidableEq, Repr

def Piece.characters : Piece → List Char
  | .word cs | .plain _ cs => cs

/-- The front of a source: the piece it holds, none for a blank, how that is spelled, and the rest. -/
structure Cut where
  piece : Option Piece
  spelling : List Char
  rest : List Char
  deriving DecidableEq, Repr

def isBlank (c : Char) : Bool := c == ' ' || c == '\t' || c == '\r' || c == '\n'
def isWordStart (c : Char) : Bool := c.isAlpha || c == '_' || c == '$'
def isWordPart (c : Char) : Bool := isWordStart c || c.isDigit

def Mark.ofChar? : Char → Option Mark
  | '\x7b' => some .leftBrace
  | '\x7d' => some .rightBrace
  | '(' => some .leftParen
  | ')' => some .rightParen
  | '[' => some .leftBracket
  | ']' => some .rightBracket
  | ';' => some .semicolon
  | ',' => some .comma
  | '=' => some .equals
  | _ => none

def untilCommentEnd : List Char → Option (List Char × List Char)
  | [] => none
  | '*' :: '/' :: rest => some ([], rest)
  | c :: rest => (untilCommentEnd rest).map fun r => (c :: r.1, r.2)

namespace Cut

def mark (m : Mark) (rest : List Char) : Cut :=
  ⟨some (.plain (.mark m) m.spelling.toList), m.spelling.toList, rest⟩

def dots : List Char → Cut
  | '.' :: '.' :: rest => mark .varargs rest
  | rest => mark .dot rest

def arrow : List Char → Except LexFault Cut
  | '-' :: rest => .ok (mark .leftArrow rest)
  | _ => .error (.unexpectedCharacter '<')

def block (kind : TokenKind) (opening body : List Char) : Except LexFault Cut :=
  match untilCommentEnd body with
  | some (text, rest) => .ok ⟨some (.plain kind text), opening ++ text ++ ['*', '/'], rest⟩
  | none => .error .unterminatedComment

/-- What follows a slash: another one, or a star. A second star makes documentation of the comment,
unless it is already part of the end. -/
def comment : List Char → Except LexFault Cut
  | '/' :: rest =>
    let text := rest.takeWhile (· != '\n')
    .ok ⟨some (.plain .comment text), '/' :: '/' :: text, rest.dropWhile (· != '\n')⟩
  | '*' :: '*' :: '/' :: rest => block .comment ['/', '*'] ('*' :: '/' :: rest)
  | '*' :: '*' :: rest => block .javadoc ['/', '*', '*'] rest
  | '*' :: rest => block .comment ['/', '*'] rest
  | _ => .error (.unexpectedCharacter '/')

def quotation (body : List Char) : Except LexFault Cut :=
  let text := body.takeWhile (· != '"')
  match body.dropWhile (· != '"') with
  | _ :: rest => .ok ⟨some (.plain .text text), '"' :: text ++ ['"'], rest⟩
  | [] => .error .unterminatedString

def run (piece : List Char → Piece) (part : Char → Bool) (c : Char) (rest : List Char) : Cut :=
  let text := c :: rest.takeWhile part
  ⟨some (piece text), text, rest.dropWhile part⟩

end Cut

def cut (c : Char) (rest : List Char) : Except LexFault Cut :=
  if isBlank c then .ok ⟨none, [c], rest⟩
  else match Mark.ofChar? c with
    | some m => .ok (.mark m rest)
    | none =>
      if c = '.' then .ok (.dots rest)
      else if c = '<' then Cut.arrow rest
      else if c = '/' then Cut.comment rest
      else if c = '"' then Cut.quotation rest
      else if c.isDigit then .ok (.run (.plain .number) Char.isDigit c rest)
      else if isWordStart c then .ok (.run .word isWordPart c rest)
      else .error (.unexpectedCharacter c)

theorem Mark.ofChar?_spelling {c : Char} {m : Mark} (h : Mark.ofChar? c = some m) :
    m.spelling.toList = [c] := by
  unfold Mark.ofChar? at h
  split at h <;> simp_all <;> subst h <;> decide

theorem eq_of_untilCommentEnd {cs text rest : List Char}
    (h : untilCommentEnd cs = some (text, rest)) : cs = text ++ ['*', '/'] ++ rest := by
  fun_induction untilCommentEnd cs generalizing text with
  | case1 => simp at h
  | case2 r => simp at h; obtain ⟨rfl, rfl⟩ := h; simp
  | case3 c cs _ ih =>
    obtain ⟨r, hr, he⟩ := Option.map_eq_some_iff.1 h
    obtain ⟨rfl, rfl⟩ := Prod.mk.inj he
    simpa using ih hr

namespace Cut

def Splits (k : Cut) (source : List Char) : Prop := source = k.spelling ++ k.rest ∧ k.spelling ≠ []

theorem splits_mark {m : Mark} {source rest : List Char} (h : source = m.spelling.toList ++ rest) :
    (mark m rest).Splits source := by
  refine ⟨h, ?_⟩
  cases m <;> simp [mark, Mark.spelling]

theorem splits_dots (rest : List Char) : (dots rest).Splits ('.' :: rest) := by
  unfold dots
  split
  · exact splits_mark rfl
  · exact splits_mark rfl

theorem splits_block {kind : TokenKind} {opening body : List Char} {k : Cut}
    (h : block kind opening body = .ok k) : k.Splits (opening ++ body) := by
  unfold block at h
  split at h
  · next text rest hu =>
    cases h
    exact ⟨by simp [eq_of_untilCommentEnd hu], by simp⟩
  · cases h

theorem splits_comment {rest : List Char} {k : Cut} (h : comment rest = .ok k) :
    k.Splits ('/' :: rest) := by
  unfold comment at h
  split at h
  · cases h
    exact ⟨by simp [List.takeWhile_append_dropWhile], by simp⟩
  · exact splits_block h
  · exact splits_block h
  · exact splits_block h
  · cases h

theorem splits_quotation {body : List Char} {k : Cut} (h : quotation body = .ok k) :
    k.Splits ('"' :: body) := by
  unfold quotation at h
  split at h
  · next d rest hd =>
    cases h
    have hq : d = '"' := by
      have := List.head?_dropWhile_not (fun c => c != '"') body
      rw [hd] at this
      simpa using this
    subst hq
    refine ⟨?_, by simp⟩
    have := List.takeWhile_append_dropWhile (p := fun c => c != '"') (l := body)
    rw [hd] at this
    simpa using this.symm
  · cases h

theorem splits_run (piece : List Char → Piece) (part : Char → Bool) (c : Char) (rest : List Char) :
    (run piece part c rest).Splits (c :: rest) :=
  ⟨by simp [run, List.takeWhile_append_dropWhile], by simp [run]⟩

end Cut

theorem cut_splits {c : Char} {rest : List Char} {k : Cut} (h : cut c rest = .ok k) :
    k.Splits (c :: rest) := by
  unfold cut at h
  split at h
  · cases h; exact ⟨rfl, by simp⟩
  · split at h
    · next m hm => cases h; exact Cut.splits_mark (by simp [Mark.ofChar?_spelling hm])
    · split at h
      · next hc => subst hc; cases h; exact Cut.splits_dots rest
      split at h
      · next hc =>
        subst hc
        unfold Cut.arrow at h
        split at h
        · cases h; exact Cut.splits_mark rfl
        · cases h
      split at h
      · next hc => subst hc; exact Cut.splits_comment h
      split at h
      · next hc => subst hc; exact Cut.splits_quotation h
      split at h
      · cases h; exact Cut.splits_run _ _ c rest
      split at h
      · cases h; exact Cut.splits_run _ _ c rest
      · cases h

theorem cut_eq_append {c : Char} {rest : List Char} {k : Cut} (h : cut c rest = .ok k) :
    c :: rest = k.spelling ++ k.rest := (cut_splits h).1

theorem cut_rest_lt {c : Char} {rest : List Char} {k : Cut} (h : cut c rest = .ok k) :
    k.rest.length < (c :: rest).length := by
  obtain ⟨he, hn⟩ := cut_splits h
  have := List.length_pos_iff.2 hn
  rw [he, List.length_append]
  omega

structure PlacedPiece where
  piece : Piece
  position : Position
  deriving DecidableEq, Repr

def pieces (p : Position) : List Char → Except LexError (List PlacedPiece)
  | [] => .ok []
  | c :: cs =>
    match h : cut c cs with
    | .error fault => .error ⟨fault, p⟩
    | .ok k =>
      have := cut_rest_lt h
      match k.piece with
      | none => pieces (p.afterAll k.spelling) k.rest
      | some piece => (pieces (p.afterAll k.spelling) k.rest).map (⟨piece, p⟩ :: ·)
termination_by cs => cs.length
decreasing_by all_goals (simp only [List.length_cons] at *; omega)

end ObfuscationMap
