import ObfuscationMap.Token

/-!
Scopes decide what a word means. After `pkg`, `import`, `class`, `md` and `fd` a declaration's header is
open until its brace or semicolon, and every word in it is a name, as it is inside an `aliases` block. In
all other places a word may be a keyword.

Open braces nest, but at most one header is open and it is always innermost. So a stack of scopes is
the list of open blocks, innermost first, with perhaps a header on top; the script itself lies under
them all. `toList` writes it out.
-/

namespace ObfuscationMap

/-- What stands between the word of a declaration and its brace or semicolon. -/
inductive Header
  | packageName | importPath | className | methodName | fieldName
  deriving DecidableEq, Repr

inductive Block
  | aliases | classBody | memberBody | other
  deriving DecidableEq, Repr

inductive Scope
  | script
  | header (h : Header)
  | block (b : Block)
  deriving DecidableEq, Repr

def Keyword.header? : Keyword → Option Header
  | .pkg => some .packageName
  | .importWord => some .importPath
  | .classWord => some .className
  | .md => some .methodName
  | .fd => some .fieldName
  | .aliases | .asWord | .removed => none

def Header.body : Header → Block
  | .className => .classBody
  | .methodName | .fieldName => .memberBody
  | .packageName | .importPath => .other

namespace Scope

def isHeader : Scope → Bool | .header _ => true | _ => false

/-- The meaning of a word where keywords are known, `as` not being one of those. -/
def freeWord (word : String) : TokenKind :=
  match Keyword.ofWord? word with
  | some .asWord | none => .identifier
  | some k => .keyword k

def classify : Scope → String → TokenKind
  | .script, word | .block .classBody, word | .block .memberBody, word | .block .other, word =>
    freeWord word
  | .header .importPath, word =>
    if word = Keyword.asWord.spelling then .keyword .asWord else .identifier
  | .header _, _ | .block .aliases, _ => .identifier

end Scope

/-- How many tokens, the brace included, tell what a brace without a header encloses. -/
def braceWindow : Nat := 3

def Block.ofRecent (kinds : List TokenKind) : Block :=
  if .keyword .aliases ∈ kinds then .aliases
  else if .keyword .classWord ∈ kinds then .classBody
  else if .keyword .md ∈ kinds ∨ .keyword .fd ∈ kinds then .memberBody
  else .other

structure ScopeStack where
  header : Option Header
  blocks : List Block
  deriving DecidableEq, Repr

namespace ScopeStack

def empty : ScopeStack := ⟨none, []⟩

def top (s : ScopeStack) : Scope :=
  match s.header, s.blocks with
  | some h, _ => .header h
  | none, b :: _ => .block b
  | none, [] => .script

def toList (s : ScopeStack) : List Scope :=
  (s.header.map Scope.header).toList ++ s.blocks.map Scope.block ++ [.script]

def openHeader (s : ScopeStack) (h : Header) : ScopeStack := ⟨some h, s.blocks⟩

def closeHeader (s : ScopeStack) : ScopeStack := ⟨none, s.blocks⟩

/-- A brace turns an open header into its body; without one the tokens before it decide. -/
def enter (s : ScopeStack) (recent : List TokenKind) : ScopeStack :=
  ⟨none, (match s.header with | some h => h.body | none => .ofRecent recent) :: s.blocks⟩

/-- A closing brace drops an unfinished header too, and leaves the script alone. -/
def leave (s : ScopeStack) : ScopeStack := ⟨none, s.blocks.tail⟩

theorem head?_toList (s : ScopeStack) : s.toList.head? = some s.top := by
  obtain ⟨h, bs⟩ := s
  cases h <;> cases bs <;> rfl

end ScopeStack

end ObfuscationMap
