import ObfuscationMap.Script
import ObfuscationMap.Script.Reader
import ObfuscationMap.Proofs.OrderedMap

/-!
The grammar of mapping scripts, as rules about lists of symbols and with no reader in sight. A symbol is
what a grammar sees of a token, its kind and its text where that matters. A rule relates symbols to what
they declare, and a sequence in a rule may be cut anywhere, so nothing here looks ahead.

Four places pass over symbols that start nothing: the top of a script, the bodies of classes and of
members, and blocks of aliases. `Items` and `ClassBody` list for each the kinds that are not passed over.
The word that opens a declaration stands in the rule of the place that holds it, and the rule of the
declaration tells what follows.
-/

namespace ObfuscationMap

inductive Symbol
  | name (w : String)
  | text (s : String)
  | number (s : String)
  | keyword (k : Keyword)
  | mark (m : Mark)
  | comment (s : String)
  | javadoc (s : String)
  | eof
  deriving DecidableEq, Repr

namespace Symbol

def of : TokenKind → String → Symbol
  | .identifier, s => .name s
  | .text, s => .text s
  | .number, s => .number s
  | .keyword k, _ => .keyword k
  | .mark m, _ => .mark m
  | .comment, s => .comment s
  | .javadoc, s => .javadoc s
  | .eof, _ => .eof

def kind : Symbol → TokenKind
  | .name _ => .identifier
  | .text _ => .text
  | .number _ => .number
  | .keyword k => .keyword k
  | .mark m => .mark m
  | .comment _ => .comment
  | .javadoc _ => .javadoc
  | .eof => .eof

def documentation? : Symbol → Option String | .javadoc s => some s | _ => none

@[simp] theorem kind_of (k : TokenKind) (s : String) : (of k s).kind = k := by cases k <;> rfl

end Symbol

def Token.symbol (t : Token) : Symbol := .of t.kind t.lexeme

@[simp] theorem Token.kind_symbol (t : Token) : t.symbol.kind = t.kind := Symbol.kind_of _ _

theorem Token.symbol_of_kind {t : Token} {k : TokenKind} (h : t.kind = k) : t.symbol = .of k t.lexeme := by
  rw [Token.symbol, h]

theorem Token.kind_of_symbol {t : Token} {x : Symbol} (h : t.symbol = x) : t.kind = x.kind := by
  rw [← h, t.kind_symbol]

def symbols (ts : List Token) : List Symbol := ts.map Token.symbol

@[simp] theorem symbols_nil : symbols [] = [] := rfl

@[simp] theorem symbols_cons (t : Token) (ts : List Token) :
    symbols (t :: ts) = t.symbol :: symbols ts := rfl

@[simp] theorem symbols_append (ts us : List Token) : symbols (ts ++ us) = symbols ts ++ symbols us :=
  List.map_append

namespace Grammar

variable {α : Type}

inductive Name : List Symbol → String → Prop
  | mk (w : String) : Name [.name w] w

inductive QualifiedName : List Symbol → String → Prop
  | single (w : String) : QualifiedName [.name w] w
  | dotted (w : String) {xs : List Symbol} {rest : String} : QualifiedName xs rest →
      QualifiedName (.name w :: .mark .dot :: xs) (w ++ "." ++ rest)

inductive Opt (opening : Symbol) (rule : List Symbol → α → Prop) : List Symbol → Option α → Prop
  | absent : Opt opening rule [] none
  | present {xs : List Symbol} {a : α} : rule xs a → Opt opening rule (opening :: xs) (some a)

inductive Separated (rule : List Symbol → α → Prop) : List Symbol → List α → Prop
  | one {xs : List Symbol} {a : α} : rule xs a → Separated rule xs [a]
  | more {xs ys : List Symbol} {a : α} {as : List α} : rule xs a → Separated rule ys as →
      Separated rule (xs ++ .mark .comma :: ys) (a :: as)

inductive Enclosed (opening closing : Mark) (rule : List Symbol → α → Prop) :
    List Symbol → List α → Prop
  | absent : Enclosed opening closing rule [] []
  | empty : Enclosed opening closing rule [.mark opening, .mark closing] []
  | full {xs : List Symbol} {as : List α} : Separated rule xs as →
      Enclosed opening closing rule (.mark opening :: (xs ++ [.mark closing])) as

theorem Opt.head {opening : Symbol} {rule : List Symbol → α → Prop} {xs : List Symbol} {a : Option α}
    (h : Opt opening rule xs a) : ∀ x ∈ xs.head?, x = opening := by
  cases h <;> simp

theorem Enclosed.head {opening closing : Mark} {rule : List Symbol → α → Prop} {xs : List Symbol}
    {as : List α} (h : Enclosed opening closing rule xs as) : ∀ x ∈ xs.head?, x = .mark opening := by
  cases h <;> simp

/-- Items in order, and between them symbols of any kind but those listed. -/
inductive Items (kept : List TokenKind) (rule : List Symbol → α → Prop) :
    List Symbol → List α → Prop
  | done : Items kept rule [] []
  | other {x : Symbol} {xs : List Symbol} {as : List α} : x.kind ∉ kept → Items kept rule xs as →
      Items kept rule (x :: xs) as
  | item {xs ys : List Symbol} {a : α} {as : List α} : rule xs a → Items kept rule ys as →
      Items kept rule (xs ++ ys) (a :: as)

inductive Entry : List Symbol → String × String → Prop
  | mk (key value : String) : Entry [.name key, .mark .equals, .text value] (key, value)

inductive MetadataRule : List Symbol → Metadata → Prop
  | mk {xs : List Symbol} {entries : List (String × String)} {data : Metadata} :
      Enclosed .leftBracket .rightBracket Entry xs entries → OrderedMap.Collects entries data →
      MetadataRule xs data

theorem MetadataRule.head {xs : List Symbol} {data : Metadata} (h : MetadataRule xs data) :
    ∀ x ∈ xs.head?, x = .mark .leftBracket := by
  cases h with
  | mk he _ => exact he.head

inductive ParameterRule : List Symbol → Parameter → Prop
  | single {xs : List Symbol} {type : String} : QualifiedName xs type → ParameterRule xs ⟨type, false⟩
  | varargs {xs : List Symbol} {type : String} : QualifiedName xs type →
      ParameterRule (xs ++ [.mark .varargs]) ⟨type, true⟩

inductive AliasRule : List Symbol → Alias → Prop
  | removed {marker : Symbol} (version : String) :
      marker = .keyword .removed ∨ marker = .name Keyword.removed.spelling →
      AliasRule [marker, .name version, .mark .semicolon] (.gone version)
  | live {version : String} (name : String) {xs : List Symbol} {data : Metadata} :
      version ≠ Keyword.removed.spelling → MetadataRule xs data →
      AliasRule (.name version :: .name name :: (xs ++ [.mark .semicolon])) (.live version name data)

inductive AliasesRule : List Symbol → List Alias → Prop
  | mk {xs : List Symbol} {as : List Alias} :
      Items [.identifier, .keyword .removed, .mark .rightBrace] AliasRule xs as →
      AliasesRule (.keyword .aliases :: .mark .leftBrace :: (xs ++ [.mark .rightBrace])) as

inductive MemberEnd : List Symbol → List Alias → Prop
  | semicolon : MemberEnd [.mark .semicolon] []
  | body {xs : List Symbol} {blocks : List (List Alias)} :
      Items [.keyword .aliases, .mark .rightBrace] AliasesRule xs blocks →
      MemberEnd (.mark .leftBrace :: (xs ++ [.mark .rightBrace])) blocks.flatten

inductive MethodRule (doc : Option String) : List Symbol → MethodDecl → Prop
  | mk (name : String) {ps os ds es : List Symbol} {parameters : List Parameter}
      {obfuscated : Option String} {data : Metadata} {aliases : List Alias} :
      Enclosed .leftParen .rightParen ParameterRule ps parameters →
      Opt (.mark .leftArrow) Name os obfuscated → MetadataRule ds data → MemberEnd es aliases →
      MethodRule doc (.name name :: (ps ++ (os ++ (ds ++ es))))
        ⟨name, parameters, obfuscated, doc, aliases, data⟩

inductive FieldRule : List Symbol → FieldDecl → Prop
  | mk (name : String) {os ds es : List Symbol} {obfuscated : Option String} {data : Metadata}
      {aliases : List Alias} :
      Opt (.mark .leftArrow) Name os obfuscated → MetadataRule ds data → MemberEnd es aliases →
      FieldRule (.name name :: (os ++ (ds ++ es))) ⟨name, obfuscated, aliases, data⟩

inductive HeaderRule : List Symbol → ClassDecl → Prop
  | mk (name : String) {os ds : List Symbol} {obfuscated : Option String} {data : Metadata} :
      Opt (.mark .leftArrow) QualifiedName os obfuscated → MetadataRule ds data →
      HeaderRule (.name name :: (os ++ (ds ++ [.mark .leftBrace]))) (.ofHeader name obfuscated data)

end Grammar

inductive Member
  | method (m : MethodDecl)
  | field (f : FieldDecl)
  | inner (c : ClassDecl)
  | aliases (as : List Alias)

namespace Member

def method? : Member → Option MethodDecl | .method m => some m | _ => none
def field? : Member → Option FieldDecl | .field f => some f | _ => none
def inner? : Member → Option ClassDecl | .inner c => some c | _ => none
def aliasList : Member → List Alias | .aliases as => as | _ => []

end Member

def ClassDecl.addMembers (c : ClassDecl) (ms : List Member) : ClassDecl :=
  { c with
    methods := c.methods ++ ms.filterMap Member.method?
    fields := c.fields ++ ms.filterMap Member.field?
    inner := c.inner ++ ms.filterMap Member.inner?
    aliases := c.aliases ++ ms.flatMap Member.aliasList }

namespace Grammar

/-- Members of a class. `doc` is the documentation that stands right before the first symbol, and a
method takes what stands right before its own word. -/
inductive ClassBody : Option String → List Symbol → List Member → Prop
  | done {doc : Option String} : ClassBody doc [] []
  | method {doc : Option String} {xs ys : List Symbol} {m : MethodDecl} {ms : List Member} :
      MethodRule doc xs m → ClassBody none ys ms →
      ClassBody doc (.keyword .md :: (xs ++ ys)) (.method m :: ms)
  | field {doc : Option String} {xs ys : List Symbol} {f : FieldDecl} {ms : List Member} :
      FieldRule xs f → ClassBody none ys ms →
      ClassBody doc (.keyword .fd :: (xs ++ ys)) (.field f :: ms)
  | inner {doc : Option String} {hs bs ys : List Symbol} {c : ClassDecl} {is ms : List Member} :
      HeaderRule hs c → ClassBody none bs is → ClassBody none ys ms →
      ClassBody doc (.keyword .classWord :: (hs ++ (bs ++ .mark .rightBrace :: ys)))
        (.inner (c.addMembers is) :: ms)
  | aliases {doc : Option String} {xs ys : List Symbol} {as : List Alias} {ms : List Member} :
      AliasesRule xs as → ClassBody none ys ms → ClassBody doc (xs ++ ys) (.aliases as :: ms)
  | other {doc : Option String} {x : Symbol} {ys : List Symbol} {ms : List Member} :
      x.kind ∉ [.keyword .md, .keyword .fd, .keyword .classWord, .keyword .aliases, .mark .rightBrace] →
      ClassBody x.documentation? ys ms → ClassBody doc (x :: ys) ms

inductive ImportRule : List Symbol → Import → Prop
  | mk {ps as : List Symbol} {path : String} {asName : Option String} : QualifiedName ps path →
      Opt (.keyword .asWord) Name as asName → ImportRule (ps ++ (as ++ [.mark .semicolon])) ⟨path, asName⟩

inductive ClassRule : List Symbol → ClassDecl → Prop
  | mk {hs bs : List Symbol} {c : ClassDecl} {ms : List Member} : HeaderRule hs c →
      ClassBody none bs ms → ClassRule (hs ++ (bs ++ [.mark .rightBrace])) (c.addMembers ms)

end Grammar

inductive Declaration
  | importDecl (i : Import)
  | classDecl (c : ClassDecl)

namespace Declaration

def import? : Declaration → Option Import | .importDecl i => some i | _ => none
def class? : Declaration → Option ClassDecl | .classDecl c => some c | _ => none

end Declaration

def Script.ofDeclarations (package : Option String) (ds : List Declaration) : Script :=
  ⟨package, ds.filterMap Declaration.import?, ds.filterMap Declaration.class?⟩

namespace Grammar

inductive DeclarationRule : List Symbol → Declaration → Prop
  | importDecl {xs : List Symbol} {i : Import} : ImportRule xs i →
      DeclarationRule (.keyword .importWord :: xs) (.importDecl i)
  | classDecl {xs : List Symbol} {c : ClassDecl} : ClassRule xs c →
      DeclarationRule (.keyword .classWord :: xs) (.classDecl c)

abbrev Declarations := Items [.keyword .importWord, .keyword .classWord] DeclarationRule

inductive ScriptRule : List Symbol → Script → Prop
  | packaged {cs ps xs : List Symbol} {name : String} {ds : List Declaration} :
      (∀ c ∈ cs, c.kind.isComment) → QualifiedName ps name → Declarations xs ds →
      ScriptRule (cs ++ .keyword .pkg :: (ps ++ .mark .semicolon :: xs)) (.ofDeclarations (some name) ds)
  | bare {cs xs : List Symbol} {ds : List Declaration} : (∀ c ∈ cs, c.kind.isComment) →
      (∀ x ∈ xs.head?, ¬ x.kind.isComment ∧ x.kind ≠ .keyword .pkg) → Declarations xs ds →
      ScriptRule (cs ++ xs) (.ofDeclarations none ds)

end Grammar
end ObfuscationMap
