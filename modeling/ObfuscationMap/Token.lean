import ObfuscationMap.Text.Quoted

/-!
Tokens of a mapping script: what they are, where they stand and how a diagnostic calls them.
Positions count from one. Only a line feed starts a new line, and every other character, a carriage
return or a tab included, is one column wide.
-/

namespace ObfuscationMap

/-- A line and a column. They have no upper bound, so they stand for those of sources with fewer than `2 ^ 32`
characters. -/
structure Position where
  line : Nat
  column : Nat
  deriving DecidableEq, Repr, Inhabited

namespace Position

def start : Position := ⟨1, 1⟩

def after (p : Position) (c : Char) : Position :=
  if c = '\n' then ⟨p.line + 1, 1⟩ else ⟨p.line, p.column + 1⟩

def afterAll (p : Position) (cs : List Char) : Position := cs.foldl after p

def describe (p : Position) : String := "line " ++ toString p.line ++ ", column " ++ toString p.column

theorem afterAll_append (p : Position) (cs ds : List Char) :
    p.afterAll (cs ++ ds) = (p.afterAll cs).afterAll ds := List.foldl_append

end Position

inductive Keyword
  | pkg | importWord | classWord | md | fd | aliases | asWord | removed
  deriving DecidableEq, Repr

namespace Keyword

def all : List Keyword := [.pkg, .importWord, .classWord, .md, .fd, .aliases, .asWord, .removed]

def spelling : Keyword → String
  | .pkg => "pkg"
  | .importWord => "import"
  | .classWord => "class"
  | .md => "md"
  | .fd => "fd"
  | .aliases => "aliases"
  | .asWord => "as"
  | .removed => "removed"

def ofWord? (word : String) : Option Keyword := all.find? fun k => k.spelling == word

end Keyword

inductive Mark
  | leftBrace | rightBrace | leftParen | rightParen | leftBracket | rightBracket
  | semicolon | comma | equals | dot | leftArrow | varargs
  deriving DecidableEq, Repr

namespace Mark

def spelling : Mark → String
  | .leftBrace => "\x7b"
  | .rightBrace => "\x7d"
  | .leftParen => "("
  | .rightParen => ")"
  | .leftBracket => "["
  | .rightBracket => "]"
  | .semicolon => ";"
  | .comma => ","
  | .equals => "="
  | .dot => "."
  | .leftArrow => "<-"
  | .varargs => "..."

end Mark

inductive TokenKind
  | identifier
  | text
  | number
  | keyword (k : Keyword)
  | mark (m : Mark)
  | comment
  | javadoc
  | eof
  deriving DecidableEq, Repr

namespace TokenKind

def label : TokenKind → String
  | .identifier => "identifier"
  | .text => "string"
  | .number => "number"
  | .keyword k => "'" ++ k.spelling ++ "'"
  | .mark m => "'" ++ m.spelling ++ "'"
  | .comment => "comment"
  | .javadoc => "javadoc"
  | .eof => "end of input"

def isKeyword : TokenKind → Bool | .keyword _ => true | _ => false
def isComment : TokenKind → Bool | .comment | .javadoc => true | _ => false

end TokenKind

structure Token where
  kind : TokenKind
  lexeme : String
  position : Position
  deriving DecidableEq, Repr

namespace Token

def eof (p : Position) : Token := ⟨.eof, "", p⟩

def describe (t : Token) : String :=
  match t.kind with
  | .eof | .comment | .javadoc => t.kind.label
  | .text => "\"" ++ t.lexeme ++ "\""
  | _ => "'" ++ t.lexeme ++ "'"

end Token

inductive LexFault
  | unterminatedString
  | unterminatedComment
  | unexpectedCharacter (c : Char)
  deriving DecidableEq, Repr

def LexFault.message : LexFault → String
  | .unterminatedString => "Unterminated string"
  | .unterminatedComment => "Unterminated comment"
  | .unexpectedCharacter c => "Unexpected character " ++ Text.quotedChar c

structure LexError where
  fault : LexFault
  position : Position
  deriving DecidableEq, Repr

def LexError.message (e : LexError) : String :=
  e.fault.message ++ " at " ++ e.position.describe

end ObfuscationMap
