import ObfuscationMap.Proofs.Grammar
import ObfuscationMap.Proofs.Layout
import Mathlib.Data.List.Infix
import Mathlib.Tactic.MkIffOfInductiveProp

/-!
Writing a script out. A declaration is written as symbols, in the order of the grammar and with nothing
that the grammar could do without but the parentheses of a method. Words come out as the scanner reads
them, so a word is a keyword only where it opens a declaration or a block, or stands before an import's
alias. What a script may hold, to be written so, is `Legal`.
-/

namespace ObfuscationMap

def isIdentifier (w : String) : Bool :=
  match w.toList with
  | [] => false
  | c :: cs => isWordStart c && cs.all isWordPart

def nameParts (name : String) : List String := (name.toList.splitOn '.').map String.ofList

def isQualified (name : String) : Bool := (nameParts name).all isIdentifier

def Metadata.Legal (m : Metadata) : Prop := ∀ e ∈ m.entries, isIdentifier e.1 ∧ '"' ∉ e.2.toList

/-- Documentation that ends where it is meant to and does not turn into a comment. -/
def IsDocumentation (doc : String) : Prop := ¬ ['*', '/'] <:+: doc.toList ∧ doc.toList.head? ≠ some '/'

instance (m : Metadata) : Decidable m.Legal := List.decidableBAll ..

structure Alias.Legal (a : Alias) : Prop where
  version : isIdentifier a.version
  removed : a.removed → a.name = "" ∧ a.metadata.entries = []
  live : ¬ a.removed → isIdentifier a.name ∧ a.metadata.Legal ∧ a.version ≠ Keyword.removed.spelling

structure FieldDecl.Legal (f : FieldDecl) : Prop where
  name : isIdentifier f.name
  obfuscated : ∀ o ∈ f.obfuscated, isIdentifier o
  metadata : f.metadata.Legal
  aliases : ∀ a ∈ f.aliases, a.Legal

structure MethodDecl.Legal (m : MethodDecl) : Prop where
  name : isIdentifier m.name
  parameters : ∀ p ∈ m.parameters, isQualified p.type
  obfuscated : ∀ o ∈ m.obfuscated, isIdentifier o
  javadoc : ∀ doc ∈ m.javadoc, IsDocumentation doc
  metadata : m.metadata.Legal
  aliases : ∀ a ∈ m.aliases, a.Legal

inductive ClassDecl.Legal : ClassDecl → Prop
  | mk {c : ClassDecl} : isIdentifier c.name → (∀ o ∈ c.obfuscated, isQualified o) → c.metadata.Legal →
      (∀ m ∈ c.methods, m.Legal) → (∀ f ∈ c.fields, f.Legal) → (∀ d ∈ c.inner, d.Legal) →
      (∀ a ∈ c.aliases, a.Legal) → c.Legal

theorem ClassDecl.Legal.ofHeader {name : String} {obfuscated : Option String} {metadata : Metadata}
    (hn : isIdentifier name) (ho : ∀ o ∈ obfuscated, isQualified o) (hd : metadata.Legal) :
    (ClassDecl.ofHeader name obfuscated metadata).Legal := by
  refine .mk hn ho hd ?_ ?_ ?_ ?_ <;> simp [ClassDecl.ofHeader]

structure Import.Legal (i : Import) : Prop where
  path : isQualified i.path
  asName : ∀ name ∈ i.asName, isIdentifier name

/-- The import names nothing `as`, which is no name where an import is read. -/
structure Import.AvoidsAs (i : Import) : Prop where
  path : Keyword.asWord.spelling ∉ nameParts i.path
  asName : i.asName ≠ some Keyword.asWord.spelling

structure Script.Legal (s : Script) : Prop where
  package : ∀ name ∈ s.package, isQualified name
  imports : ∀ i ∈ s.imports, i.Legal
  classes : ∀ c ∈ s.classes, c.Legal

section decision

attribute [mk_iff] Alias.Legal FieldDecl.Legal MethodDecl.Legal ClassDecl.Legal Import.Legal Script.Legal

instance (doc : String) : Decidable (IsDocumentation doc) := instDecidableAnd

instance (a : Alias) : Decidable a.Legal := decidable_of_iff _ (Alias.legal_iff a).symm

instance (f : FieldDecl) : Decidable f.Legal := decidable_of_iff _ (FieldDecl.legal_iff f).symm

instance (m : MethodDecl) : Decidable m.Legal := decidable_of_iff _ (MethodDecl.legal_iff m).symm

mutual

def ClassDecl.decideLegal : (c : ClassDecl) → Decidable c.Legal
  | ⟨_, _, _, _, _, inner, _⟩ =>
    have := decideAllLegal inner
    decidable_of_iff _ (ClassDecl.legal_iff _).symm

def decideAllLegal : (cs : List ClassDecl) → Decidable (∀ c ∈ cs, c.Legal)
  | [] => .isTrue (List.forall_mem_nil _)
  | c :: cs =>
    have := c.decideLegal
    have := decideAllLegal cs
    decidable_of_iff _ List.forall_mem_cons.symm

end

instance (c : ClassDecl) : Decidable c.Legal := c.decideLegal

instance (i : Import) : Decidable i.Legal := decidable_of_iff _ (Import.legal_iff i).symm

instance (s : Script) : Decidable s.Legal := decidable_of_iff _ (Script.legal_iff s).symm

end decision

def qualifiedSymbols (name : String) : List Symbol :=
  ((nameParts name).map Symbol.name).intersperse (.mark .dot)

def commaSeparated (items : List (List Symbol)) : List Symbol := [.mark .comma].intercalate items

def Metadata.symbols (m : Metadata) : List Symbol :=
  match m.entries with
  | [] => []
  | es => .mark .leftBracket ::
      (commaSeparated (es.map fun e => [.name e.1, .mark .equals, .text e.2]) ++ [.mark .rightBracket])

def Parameter.symbols (p : Parameter) : List Symbol :=
  qualifiedSymbols p.type ++ if p.varargs then [.mark .varargs] else []

def parameterSymbols (ps : List Parameter) : List Symbol :=
  .mark .leftParen :: (commaSeparated (ps.map Parameter.symbols) ++ [.mark .rightParen])

def Alias.symbols (a : Alias) : List Symbol :=
  if a.removed then [.name Keyword.removed.spelling, .name a.version, .mark .semicolon]
  else .name a.version :: .name a.name :: (a.metadata.symbols ++ [.mark .semicolon])

def aliasesSymbols (as : List Alias) : List Symbol :=
  .keyword .aliases :: .mark .leftBrace :: (as.flatMap Alias.symbols ++ [.mark .rightBrace])

def memberEndSymbols : List Alias → List Symbol
  | [] => [.mark .semicolon]
  | as => .mark .leftBrace :: (aliasesSymbols as ++ [.mark .rightBrace])

def arrowSymbols (write : String → List Symbol) : Option String → List Symbol
  | none => []
  | some name => .mark .leftArrow :: write name

def FieldDecl.symbols (f : FieldDecl) : List Symbol :=
  .keyword .fd :: .name f.name ::
    (arrowSymbols (fun o => [.name o]) f.obfuscated ++ (f.metadata.symbols ++ memberEndSymbols f.aliases))

def MethodDecl.symbols (m : MethodDecl) : List Symbol :=
  m.javadoc.toList.map Symbol.javadoc ++ .keyword .md :: .name m.name ::
    (parameterSymbols m.parameters ++ (arrowSymbols (fun o => [.name o]) m.obfuscated ++
      (m.metadata.symbols ++ memberEndSymbols m.aliases)))

mutual

def ClassDecl.symbols : ClassDecl → List Symbol
  | ⟨name, obfuscated, metadata, methods, fields, inner, aliases⟩ =>
    .keyword .classWord :: .name name :: (arrowSymbols qualifiedSymbols obfuscated ++
      (metadata.symbols ++ .mark .leftBrace :: (methods.flatMap MethodDecl.symbols ++
        (fields.flatMap FieldDecl.symbols ++ (classesSymbols inner ++
          ((if aliases = [] then [] else aliasesSymbols aliases) ++ [.mark .rightBrace]))))))

def classesSymbols : List ClassDecl → List Symbol
  | [] => []
  | c :: cs => c.symbols ++ classesSymbols cs

end

theorem classesSymbols_eq_flatMap (cs : List ClassDecl) :
    classesSymbols cs = cs.flatMap ClassDecl.symbols := by
  induction cs with
  | nil => rfl
  | cons c cs ih => rw [classesSymbols, ih, List.flatMap_cons]

def asNameSymbols : Option String → List Symbol
  | none => []
  | some name => [.keyword .asWord, .name name]

def Import.symbols (i : Import) : List Symbol :=
  .keyword .importWord :: (qualifiedSymbols i.path ++ (asNameSymbols i.asName ++ [.mark .semicolon]))

def packageSymbols : Option String → List Symbol
  | none => []
  | some name => .keyword .pkg :: (qualifiedSymbols name ++ [.mark .semicolon])

def Script.symbols (s : Script) : List Symbol :=
  packageSymbols s.package ++ (s.imports.flatMap Import.symbols ++ classesSymbols s.classes)

def Symbol.piece : Symbol → Piece
  | .name w => .word w.toList
  | .keyword k => .word k.spelling.toList
  | .text s => .plain .text s.toList
  | .number s => .plain .number s.toList
  | .mark m => .plain (.mark m) m.spelling.toList
  | .comment s => .plain .comment s.toList
  | .javadoc s => .plain .javadoc s.toList
  | .eof => .plain .eof []

def Lays (xs : List Symbol) (source : String) : Prop := Layout (xs.map Symbol.piece) source.toList

def Piece.write : Piece → List Char
  | .word cs => cs
  | .plain .text cs => '"' :: (cs ++ ['"'])
  | .plain .comment cs => '/' :: '*' :: (cs ++ ['*', '/'])
  | .plain .javadoc cs => '/' :: '*' :: '*' :: (cs ++ ['*', '/'])
  | .plain _ cs => cs

def Script.write (s : Script) : String :=
  String.ofList (s.symbols.flatMap fun x => x.piece.write ++ [' '])

section all

variable {P : Symbol → Prop} (hm : ∀ m, m ∉ [Mark.leftBrace, .rightBrace, .semicolon] → P (.mark m))
include hm

theorem forall_qualified {name : String} (h : ∀ part ∈ nameParts name, P (.name part)) :
    ∀ x ∈ qualifiedSymbols name, P x := by
  rw [qualifiedSymbols]
  generalize nameParts name = parts at h
  induction parts with
  | nil => simp
  | cons part parts ih =>
    have hp := h part List.mem_cons_self
    have hps := ih fun q hq => h q (List.mem_cons_of_mem _ hq)
    cases parts with
    | nil => simpa using hp
    | cons q parts =>
      rw [List.map_cons, List.map_cons, List.intersperse_cons_cons, List.forall_mem_cons,
        List.forall_mem_cons]
      exact ⟨hp, hm .dot (by decide), hps⟩

theorem forall_commaSeparated {items : List (List Symbol)} (h : ∀ xs ∈ items, ∀ x ∈ xs, P x) :
    ∀ x ∈ commaSeparated items, P x := by
  rw [commaSeparated]
  induction items with
  | nil => simp
  | cons xs items ih =>
    have hx := h xs List.mem_cons_self
    have hxs := ih fun q hq => h q (List.mem_cons_of_mem _ hq)
    cases items with
    | nil => simpa using hx
    | cons ys items =>
      rw [List.intercalate_cons_cons, List.forall_mem_append, List.forall_mem_append]
      exact ⟨⟨hx, by simpa using hm .comma (by decide)⟩, hxs⟩

theorem forall_metadata {m : Metadata} (h : ∀ e ∈ m.entries, P (.name e.1) ∧ P (.text e.2)) :
    ∀ x ∈ m.symbols, P x := by
  rw [Metadata.symbols]
  cases he : m.entries with
  | nil => simp
  | cons e es =>
    rw [he] at h
    rw [List.forall_mem_cons, List.forall_mem_append]
    refine ⟨hm _ (by decide), forall_commaSeparated hm ?_, by simpa using hm _ (by decide)⟩
    intro xs hxs
    obtain ⟨d, hd, rfl⟩ := List.mem_map.mp hxs
    obtain ⟨hk, hv⟩ := h d hd
    simpa using ⟨hk, hm .equals (by decide), hv⟩

theorem forall_parameters (ps : List Parameter) (h : ∀ p ∈ ps, ∀ part ∈ nameParts p.type, P (.name part)) :
    ∀ x ∈ parameterSymbols ps, P x := by
  rw [parameterSymbols, List.forall_mem_cons, List.forall_mem_append]
  refine ⟨hm _ (by decide), forall_commaSeparated hm ?_, by simpa using hm _ (by decide)⟩
  intro xs hxs
  obtain ⟨p, hp, rfl⟩ := List.mem_map.mp hxs
  rw [Parameter.symbols, List.forall_mem_append]
  refine ⟨forall_qualified hm (h p hp), ?_⟩
  split
  · simpa using hm .varargs (by decide)
  · simp

theorem forall_arrow (write : String → List Symbol) (o : Option String)
    (h : ∀ name ∈ o, ∀ x ∈ write name, P x) : ∀ x ∈ arrowSymbols write o, P x := by
  cases o with
  | none => simp [arrowSymbols]
  | some name =>
    rw [arrowSymbols, List.forall_mem_cons]
    exact ⟨hm _ (by decide), h name rfl⟩

end all

end ObfuscationMap
