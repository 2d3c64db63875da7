import ObfuscationMap.Token.Piece
import ObfuscationMap.Token.Scope

/-!
From pieces to tokens. The pieces are gone through once, with the stack of scopes at hand and the kinds
of the tokens made so far. Only words look at the stack; braces, semicolons and the words that open a
declaration change it.
-/

namespace ObfuscationMap

/-- The scopes at some place of a script and the kinds of the tokens before it, the last one first. -/
structure ScanState where
  scopes : ScopeStack
  emitted : List TokenKind
  deriving DecidableEq, Repr

namespace ScanState

def start : ScanState := ⟨.empty, []⟩

def kindOf (s : ScanState) : Piece → TokenKind
  | .word w => s.scopes.top.classify (String.ofList w)
  | .plain kind _ => kind

def scopesAfter (s : ScanState) (kind : TokenKind) : ScopeStack :=
  match kind with
  | .mark .leftBrace => s.scopes.enter ((kind :: s.emitted).take braceWindow)
  | .mark .rightBrace => s.scopes.leave
  | .mark .semicolon => s.scopes.closeHeader
  | .keyword k => match k.header? with
    | some h => s.scopes.openHeader h
    | none => s.scopes
  | _ => s.scopes

def step (s : ScanState) (p : Piece) : ScanState :=
  let kind := s.kindOf p
  ⟨s.scopesAfter kind, kind :: s.emitted⟩

def token (s : ScanState) (p : PlacedPiece) : Token :=
  ⟨s.kindOf p.piece, String.ofList p.piece.characters, p.position⟩

def tokens (s : ScanState) : List PlacedPiece → List Token
  | [] => []
  | p :: ps => s.token p :: (s.step p.piece).tokens ps

theorem tokens_append (s : ScanState) (ps qs : List PlacedPiece) :
    s.tokens (ps ++ qs) =
      s.tokens ps ++ (ps.foldl (fun s p => s.step p.piece) s).tokens qs := by
  induction ps generalizing s with
  | nil => rfl
  | cons p ps ih => simp [tokens, ih]

end ScanState

def tokenize (source : String) : Except LexError (List Token) :=
  (pieces .start source.toList).map fun ps =>
    ScanState.start.tokens ps ++ [.eof (Position.start.afterAll source.toList)]

end ObfuscationMap
