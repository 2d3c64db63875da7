import ObfuscationMap.Proofs.Words
import ObfuscationMap.Proofs.Writing

/-!
The scanner reads back the symbols a script is written with. Every declaration, once its last symbol is
read, leaves the stack of scopes as it was before its first, so the scanner is in step at any depth. Two
kinds of places take all words for names, the headers and the blocks of aliases, and there is one word
they do not take: `as` in the header of an import.
-/

namespace ObfuscationMap

/-- Pieces for these symbols are read as the symbols, and lead from one state to the other. -/
def ScanState.Reads (s : ScanState) (xs : List Symbol) (s' : ScanState) : Prop :=
  ∀ ps : List PlacedPiece, ps.map PlacedPiece.piece = xs.map Symbol.piece →
    symbols (s.tokens ps) = xs ∧ ps.foldl (fun s p => s.step p.piece) s = s'

namespace ScanState

theorem reads_nil (s : ScanState) : s.Reads [] s := by
  intro ps hp
  rw [List.map_nil, List.map_eq_nil_iff] at hp
  subst hp
  exact ⟨rfl, rfl⟩

theorem Reads.append {s s₁ s₂ : ScanState} {xs ys : List Symbol} (hx : s.Reads xs s₁)
    (hy : s₁.Reads ys s₂) : s.Reads (xs ++ ys) s₂ := by
  intro ps hp
  rw [List.map_append] at hp
  obtain ⟨qs, rs, rfl, hq, hr⟩ := List.map_eq_append_iff.mp hp
  obtain ⟨hqs, hq'⟩ := hx qs hq
  obtain ⟨hrs, hr'⟩ := hy rs hr
  rw [tokens_append, symbols_append, List.foldl_append, hqs, hq', hrs]
  exact ⟨rfl, hr'⟩

theorem symbol_token_piece {s : ScanState} {x : Symbol} (hk : s.kindOf x.piece = x.kind) (p : Position) :
    (s.token ⟨x.piece, p⟩).symbol = x := by
  rw [Token.symbol, token, hk]
  cases x <;> simp [Symbol.piece, Symbol.kind, Symbol.of, Piece.characters, String.ofList_toList]

theorem reads_one {s : ScanState} {x : Symbol} (hk : s.kindOf x.piece = x.kind) :
    s.Reads [x] (s.push x.kind) := by
  intro ps hp
  obtain ⟨⟨piece, place⟩, qs, rfl, rfl, hq⟩ := List.map_eq_cons_iff.mp hp
  rw [List.map_eq_nil_iff.mp hq]
  refine ⟨?_, ?_⟩
  · rw [tokens, tokens, symbols_cons, symbols_nil, symbol_token_piece hk]
  · rw [List.foldl_cons, List.foldl_nil, step, hk, push]

end ScanState

def ScopeStack.Reads (σ : ScopeStack) (xs : List Symbol) (σ' : ScopeStack) : Prop :=
  ∀ e, ScanState.Reads ⟨σ, e⟩ xs ⟨σ', (xs.map Symbol.kind).reverse ++ e⟩

namespace ScopeStack

theorem reads_nil (σ : ScopeStack) : σ.Reads [] σ := fun e => ScanState.reads_nil ⟨σ, e⟩

theorem Reads.append {σ σ₁ σ₂ : ScopeStack} {xs ys : List Symbol} (hx : σ.Reads xs σ₁)
    (hy : σ₁.Reads ys σ₂) : σ.Reads (xs ++ ys) σ₂ := by
  intro e
  have h := (hx e).append (hy _)
  simpa using h

theorem Reads.cons {σ σ₁ σ₂ : ScopeStack} {x : Symbol} {ys : List Symbol} (hx : σ.Reads [x] σ₁)
    (hy : σ₁.Reads ys σ₂) : σ.Reads (x :: ys) σ₂ := hx.append hy

theorem reads_one {σ σ' : ScopeStack} {x : Symbol}
    (hk : ∀ e, ScanState.kindOf ⟨σ, e⟩ x.piece = x.kind)
    (hs : ∀ e, ScanState.scopesAfter ⟨σ, e⟩ x.kind = σ') : σ.Reads [x] σ' := by
  intro e
  have h := ScanState.reads_one (hk e)
  rwa [ScanState.push, hs e] at h

theorem reads_all {σ : ScopeStack} {xs : List Symbol} (h : ∀ x ∈ xs, σ.Reads [x] σ) : σ.Reads xs σ := by
  induction xs with
  | nil => exact reads_nil σ
  | cons x xs ih => exact (h x List.mem_cons_self).cons (ih fun y hy => h y (List.mem_cons_of_mem _ hy))

theorem reads_mark (σ : ScopeStack) (m : Mark) (hm : m ∉ [Mark.leftBrace, .rightBrace, .semicolon]) :
    σ.Reads [.mark m] σ := by
  refine reads_one (fun _ => rfl) fun e => ?_
  cases m <;> simp_all [Symbol.kind, ScanState.scopesAfter]

theorem reads_text (σ : ScopeStack) (s : String) : σ.Reads [.text s] σ :=
  reads_one (fun _ => rfl) fun _ => rfl

theorem reads_javadoc (σ : ScopeStack) (s : String) : σ.Reads [.javadoc s] σ :=
  reads_one (fun _ => rfl) fun _ => rfl

theorem reads_semicolon (σ : ScopeStack) : σ.Reads [.mark .semicolon] σ.closeHeader :=
  reads_one (fun _ => rfl) fun _ => rfl

theorem reads_rightBrace (σ : ScopeStack) : σ.Reads [.mark .rightBrace] σ.leave :=
  reads_one (fun _ => rfl) fun _ => rfl

theorem reads_body (h : Header) (bs : List Block) :
    Reads ⟨some h, bs⟩ [.mark .leftBrace] ⟨none, h.body :: bs⟩ :=
  reads_one (fun _ => rfl) fun _ => rfl

theorem reads_name {σ : ScopeStack} {w : String} (hw : σ.top.classify w = .identifier) :
    σ.Reads [.name w] σ := by
  refine reads_one (fun e => ?_) fun _ => rfl
  rw [Symbol.piece, ScanState.kindOf, String.ofList_toList]
  exact hw

theorem reads_keyword {σ : ScopeStack} {k : Keyword} (hk : σ.top.classify k.spelling = .keyword k) :
    σ.Reads [.keyword k] (match k.header? with | some h => σ.openHeader h | none => σ) := by
  refine reads_one (fun e => ?_) fun _ => rfl
  rw [Symbol.piece, ScanState.kindOf, String.ofList_toList]
  exact hk

/-- No header is open and names are not all that is expected. -/
structure Free (σ : ScopeStack) : Prop where
  header : σ.header = none
  block : σ.blocks.head? ≠ some .aliases

theorem Free.classify {σ : ScopeStack} (h : σ.Free) (w : String) : σ.top.classify w = Scope.freeWord w := by
  obtain ⟨header, blocks⟩ := σ
  obtain ⟨hh, hb⟩ := h
  dsimp only at hh hb
  subst hh
  cases blocks with
  | nil => rfl
  | cons b bs =>
    cases b with
    | aliases => exact absurd rfl hb
    | _ => rfl

theorem Free.opens {σ : ScopeStack} (hσ : σ.Free) {k : Keyword} {h : Header} (hk : k.header? = some h) :
    σ.Reads [.keyword k] ⟨some h, σ.blocks⟩ := by
  have hc : σ.top.classify k.spelling = .keyword k := by
    rw [hσ.classify]
    cases k <;> first | rfl | cases hk
  have hr := reads_keyword hc
  rw [hk] at hr
  exact hr

theorem Free.eq {σ : ScopeStack} (hσ : σ.Free) : ⟨none, σ.blocks⟩ = σ := by
  rw [← hσ.header]

theorem Free.closes {σ : ScopeStack} (hσ : σ.Free) (h : Header) :
    Reads ⟨some h, σ.blocks⟩ [.mark .semicolon] σ := by
  have hs := reads_semicolon ⟨some h, σ.blocks⟩
  have hc : ScopeStack.closeHeader ⟨some h, σ.blocks⟩ = σ := hσ.eq
  rwa [hc] at hs

theorem Free.leaves {σ : ScopeStack} (hσ : σ.Free) (b : Block) :
    Reads ⟨none, b :: σ.blocks⟩ [.mark .rightBrace] σ := by
  have hs := reads_rightBrace ⟨none, b :: σ.blocks⟩
  have hl : ScopeStack.leave ⟨none, b :: σ.blocks⟩ = σ := hσ.eq
  rwa [hl] at hs

theorem Free.opensAliases {σ : ScopeStack} (hσ : σ.Free) :
    σ.Reads [.keyword .aliases, .mark .leftBrace] ⟨none, .aliases :: σ.blocks⟩ := by
  intro e
  have hk : ScanState.kindOf ⟨σ, e⟩ (Symbol.keyword .aliases).piece = .keyword .aliases :=
    hσ.classify Keyword.aliases.spelling
  have hw : (ScanState.mk σ e).Reads [.keyword .aliases] ⟨σ, .keyword .aliases :: e⟩ :=
    ScanState.reads_one hk
  -- The brace looks back to the word, so the two are read together.
  have hb : (ScanState.mk σ (.keyword .aliases :: e)).Reads [.mark .leftBrace]
      ⟨⟨none, .aliases :: σ.blocks⟩, .mark .leftBrace :: .keyword .aliases :: e⟩ := by
    have h := ScanState.reads_one (s := ⟨σ, .keyword .aliases :: e⟩) (x := .mark .leftBrace) rfl
    simpa [ScanState.push, ScanState.scopesAfter, Symbol.kind, enter, hσ.header, braceWindow,
      Block.ofRecent] using h
  exact hw.append hb

theorem header_reads {h : Header} (hi : h ≠ .importPath) (bs : List Block) (w : String) :
    Reads ⟨some h, bs⟩ [.name w] ⟨some h, bs⟩ := by
  apply reads_name
  cases h with
  | importPath => exact absurd rfl hi
  | _ => rfl

theorem import_reads {w : String} (hw : w ≠ Keyword.asWord.spelling) (bs : List Block) :
    Reads ⟨some .importPath, bs⟩ [.name w] ⟨some .importPath, bs⟩ := by
  apply reads_name
  exact if_neg hw

theorem aliases_reads (bs : List Block) (w : String) :
    Reads ⟨none, .aliases :: bs⟩ [.name w] ⟨none, .aliases :: bs⟩ := reads_name rfl

theorem reads_metadata {σ : ScopeStack} (hn : ∀ w, σ.Reads [.name w] σ) (m : Metadata) :
    σ.Reads m.symbols σ :=
  reads_all (forall_metadata (reads_mark σ) fun e _ => ⟨hn e.1, reads_text σ e.2⟩)

theorem reads_qualified {σ : ScopeStack} {name : String}
    (hn : ∀ part ∈ nameParts name, σ.Reads [.name part] σ) : σ.Reads (qualifiedSymbols name) σ :=
  reads_all (forall_qualified (reads_mark σ) hn)

theorem reads_obfuscated {σ : ScopeStack} (hn : ∀ w, σ.Reads [.name w] σ) (o : Option String) :
    σ.Reads (arrowSymbols (fun w => [.name w]) o) σ := by
  have hw : ∀ w ∈ o, ∀ x ∈ [Symbol.name w], σ.Reads [x] σ := by
    intro w _
    simpa using hn w
  exact reads_all (forall_arrow (reads_mark σ) _ o hw)

theorem reads_alias (a : Alias) (bs : List Block) :
    Reads ⟨none, .aliases :: bs⟩ a.symbols ⟨none, .aliases :: bs⟩ := by
  have hn := aliases_reads bs
  have hs := reads_semicolon ⟨none, .aliases :: bs⟩
  rw [Alias.symbols]
  split
  · exact (hn _).cons ((hn _).cons hs)
  · exact (hn _).cons ((hn _).cons ((reads_metadata hn _).append hs))

theorem reads_flatMap {α : Type} {σ : ScopeStack} {write : α → List Symbol} (as : List α)
    (h : ∀ a ∈ as, σ.Reads (write a) σ) : σ.Reads (as.flatMap write) σ := by
  induction as with
  | nil => exact reads_nil σ
  | cons a as ih =>
    rw [List.flatMap_cons]
    exact (h a List.mem_cons_self).append (ih fun b hb => h b (List.mem_cons_of_mem _ hb))

theorem Free.reads_aliases {σ : ScopeStack} (hσ : σ.Free) (as : List Alias) :
    σ.Reads (aliasesSymbols as) σ := by
  have ha := reads_flatMap as fun a _ => reads_alias a σ.blocks
  exact hσ.opensAliases.append (ha.append (hσ.leaves .aliases))

theorem Free.reads_memberEnd {σ : ScopeStack} (hσ : σ.Free) {h : Header} (hb : h.body = .memberBody)
    (as : List Alias) : Reads ⟨some h, σ.blocks⟩ (memberEndSymbols as) σ := by
  cases as with
  | nil => exact hσ.closes h
  | cons a as =>
    have ho := reads_body h σ.blocks
    rw [hb] at ho
    have hf : Free ⟨none, .memberBody :: σ.blocks⟩ := ⟨rfl, by simp⟩
    exact ho.cons ((hf.reads_aliases (a :: as)).append (hσ.leaves .memberBody))

theorem Free.reads_field {σ : ScopeStack} (hσ : σ.Free) (f : FieldDecl) : σ.Reads f.symbols σ := by
  have hn := header_reads (h := .fieldName) (by simp) σ.blocks
  have he := hσ.reads_memberEnd (h := .fieldName) rfl f.aliases
  have ho := reads_obfuscated hn f.obfuscated
  exact (hσ.opens rfl).cons ((hn f.name).cons (ho.append ((reads_metadata hn f.metadata).append he)))

theorem Free.reads_method {σ : ScopeStack} (hσ : σ.Free) (m : MethodDecl) : σ.Reads m.symbols σ := by
  have hn := header_reads (h := .methodName) (by simp) σ.blocks
  have he := hσ.reads_memberEnd (h := .methodName) rfl m.aliases
  have ho := reads_obfuscated hn m.obfuscated
  have hp := reads_all (forall_parameters (reads_mark _) m.parameters fun _ _ part _ => hn part)
  have hd : σ.Reads (m.javadoc.toList.map Symbol.javadoc) σ := by
    refine reads_all fun x hx => ?_
    obtain ⟨doc, -, rfl⟩ := List.mem_map.mp hx
    exact reads_javadoc σ doc
  exact hd.append ((hσ.opens rfl).cons ((hn m.name).cons
    (hp.append (ho.append ((reads_metadata hn m.metadata).append he)))))

mutual

theorem Free.reads_class {σ : ScopeStack} (hσ : σ.Free) (c : ClassDecl) : σ.Reads c.symbols σ := by
  match c with
  | ⟨name, obfuscated, metadata, methods, fields, inner, aliases⟩ =>
    have hn := header_reads (h := .className) (by simp) σ.blocks
    have ho := reads_all (forall_arrow (reads_mark _) qualifiedSymbols obfuscated fun _ _ =>
      forall_qualified (reads_mark _) fun part _ => hn part)
    have hf : Free ⟨none, .classBody :: σ.blocks⟩ := ⟨rfl, by simp⟩
    have ha : Reads ⟨none, .classBody :: σ.blocks⟩ (if aliases = [] then [] else aliasesSymbols aliases)
        ⟨none, .classBody :: σ.blocks⟩ := by
      split
      · exact reads_nil _
      · exact hf.reads_aliases aliases
    have hm := reads_flatMap methods fun m _ => hf.reads_method m
    have hfs := reads_flatMap fields fun f _ => hf.reads_field f
    -- The brace of the class leads back to the scopes before it, as that of every inner class did.
    have hi := Free.reads_classes hf inner
    have hb := hm.append (hfs.append (hi.append (ha.append (hσ.leaves .classBody))))
    have hbody := (reads_body .className σ.blocks).cons hb
    rw [ClassDecl.symbols]
    exact (hσ.opens rfl).cons ((hn name).cons (ho.append ((reads_metadata hn metadata).append hbody)))

theorem Free.reads_classes {σ : ScopeStack} (hσ : σ.Free) (cs : List ClassDecl) :
    σ.Reads (classesSymbols cs) σ := by
  match cs with
  | [] => exact reads_nil σ
  | c :: cs => exact (Free.reads_class hσ c).append (Free.reads_classes hσ cs)

end

theorem Free.reads_import {σ : ScopeStack} (hσ : σ.Free) {i : Import} (hi : i.AvoidsAs) :
    σ.Reads i.symbols σ := by
  have hs := hσ.closes .importPath
  have hp : Reads ⟨some .importPath, σ.blocks⟩ (qualifiedSymbols i.path) ⟨some .importPath, σ.blocks⟩ :=
    reads_qualified fun part hpart => import_reads (fun he => hi.path (he ▸ hpart)) σ.blocks
  rw [Import.symbols]
  refine (hσ.opens rfl).cons (hp.append ?_)
  cases ha : i.asName with
  | none => exact hs
  | some name =>
    have hk : Reads ⟨some .importPath, σ.blocks⟩ [.keyword .asWord] ⟨some .importPath, σ.blocks⟩ :=
      reads_keyword rfl
    have hne : name ≠ Keyword.asWord.spelling := fun he => hi.asName (by rw [ha, he])
    exact hk.cons ((import_reads hne σ.blocks).append hs)

theorem Free.reads_package {σ : ScopeStack} (hσ : σ.Free) (package : Option String) :
    σ.Reads (packageSymbols package) σ := by
  cases package with
  | none => exact reads_nil σ
  | some name =>
    have hn := header_reads (h := .packageName) (by simp) σ.blocks
    exact (hσ.opens rfl).cons ((reads_qualified fun part _ => hn part).append (hσ.closes .packageName))

theorem reads_script {s : Script} (h : ∀ i ∈ s.imports, i.AvoidsAs) : empty.Reads s.symbols empty := by
  have hf : Free empty := ⟨rfl, by simp [empty]⟩
  exact (hf.reads_package s.package).append
    ((reads_flatMap s.imports fun i hi => hf.reads_import (h i hi)).append (hf.reads_classes s.classes))

end ScopeStack
end ObfuscationMap
