import Mathlib.Data.List.Basic
import ObfuscationMap.Proofs.Writing

/-!
The grammar derives a script from the symbols it is written with. Only aliases have to be legal for this:
what is said of a removed one elsewhere is not written.
-/

namespace ObfuscationMap
open Grammar

variable {α : Type}

theorem intercalate_nameParts (name : String) : ".".intercalate (nameParts name) = name := by
  apply String.toList_injective
  have hid : (String.toList ∘ String.ofList) = id := funext fun cs => String.toList_ofList
  rw [String.toList_intercalate, nameParts, List.map_map, hid, List.map_id]
  exact List.intercalate_splitOn '.'

theorem derives_parts (part : String) (parts : List String) :
    QualifiedName (((part :: parts).map Symbol.name).intersperse (.mark .dot))
      (".".intercalate (part :: parts)) := by
  induction parts generalizing part with
  | nil =>
    rw [String.intercalate_singleton]
    exact .single part
  | cons next parts ih =>
    rw [String.intercalate_cons_cons]
    exact .dotted part (ih next)

theorem derives_qualified (name : String) : QualifiedName (qualifiedSymbols name) name := by
  have hn := intercalate_nameParts name
  rw [qualifiedSymbols]
  cases hp : nameParts name with
  | nil => exact (List.splitOn_ne_nil _ _ (List.map_eq_nil_iff.mp hp)).elim
  | cons part parts =>
    rw [hp] at hn
    conv => rhs; rw [← hn]
    exact derives_parts part parts

theorem derives_separated {G : List Symbol → α → Prop} {write : α → List Symbol} (a : α) (as : List α)
    (h : ∀ b ∈ a :: as, G (write b) b) : Separated G (commaSeparated ((a :: as).map write)) (a :: as) := by
  induction as generalizing a with
  | nil =>
    have ha := Separated.one (h a List.mem_cons_self)
    simpa [commaSeparated] using ha
  | cons b as ih =>
    have ha := Separated.more (h a List.mem_cons_self) (ih b fun c hc => h c (List.mem_cons_of_mem _ hc))
    simpa [commaSeparated] using ha

theorem derives_items {kept : List TokenKind} {G : List Symbol → α → Prop} {write : α → List Symbol}
    (as : List α) (h : ∀ a ∈ as, G (write a) a) : Items kept G (as.flatMap write) as := by
  induction as with
  | nil => exact .done
  | cons a as ih =>
    rw [List.flatMap_cons]
    exact .item (h a List.mem_cons_self) (ih fun b hb => h b (List.mem_cons_of_mem _ hb))

theorem derives_arrow {G : List Symbol → String → Prop} {write : String → List Symbol}
    (h : ∀ name, G (write name) name) (o : Option String) :
    Opt (.mark .leftArrow) G (arrowSymbols write o) o := by
  cases o with
  | none => exact .absent
  | some name => exact .present (h name)

theorem derives_metadata (m : Metadata) : MetadataRule m.symbols m := by
  have he : Enclosed .leftBracket .rightBracket Entry m.symbols m.entries := by
    rw [Metadata.symbols]
    cases m.entries with
    | nil => exact .absent
    | cons e es => exact .full (derives_separated e es fun e _ => .mk e.1 e.2)
  exact .mk he m.collects_entries

theorem derives_parameter (p : Parameter) : ParameterRule p.symbols p := by
  obtain ⟨type, varargs⟩ := p
  cases varargs with
  | false => simpa [Parameter.symbols] using ParameterRule.single (derives_qualified type)
  | true => exact .varargs (derives_qualified type)

theorem derives_parameters (ps : List Parameter) :
    Enclosed .leftParen .rightParen ParameterRule (parameterSymbols ps) ps := by
  cases ps with
  | nil => exact .empty
  | cons p ps => exact .full (derives_separated p ps fun p _ => derives_parameter p)

theorem derives_alias {a : Alias} (h : a.Legal) : AliasRule a.symbols a := by
  obtain ⟨version, name, removed, metadata⟩ := a
  cases removed with
  | true =>
    obtain ⟨hn, hm⟩ := h.removed rfl
    have hm' : metadata = .empty := OrderedMap.ext hm
    have hn' : name = "" := hn
    rw [hm', hn']
    exact .removed version (.inr rfl)
  | false =>
    obtain ⟨-, -, hv⟩ := h.live (by simp)
    exact .live name hv (derives_metadata metadata)

theorem derives_aliases {as : List Alias} (h : ∀ a ∈ as, a.Legal) : AliasesRule (aliasesSymbols as) as :=
  .mk (derives_items as fun a ha => derives_alias (h a ha))

theorem derives_memberEnd {as : List Alias} (h : ∀ a ∈ as, a.Legal) :
    MemberEnd (memberEndSymbols as) as := by
  cases as with
  | nil => exact .semicolon
  | cons a as =>
    have hb : Items [.keyword .aliases, .mark .rightBrace] AliasesRule (aliasesSymbols (a :: as) ++ [])
        [a :: as] := .item (derives_aliases h) .done
    simpa [memberEndSymbols] using MemberEnd.body hb

theorem derives_field {f : FieldDecl} (h : f.Legal) {ys : List Symbol} {ms : List Member}
    (hy : ClassBody none ys ms) : ClassBody none (f.symbols ++ ys) (.field f :: ms) :=
  .field (.mk f.name (derives_arrow Name.mk f.obfuscated) (derives_metadata f.metadata)
    (derives_memberEnd h.aliases)) hy

theorem derives_method {m : MethodDecl} (h : m.Legal) {ys : List Symbol} {ms : List Member}
    (hy : ClassBody none ys ms) : ClassBody none (m.symbols ++ ys) (.method m :: ms) := by
  obtain ⟨name, parameters, obfuscated, javadoc, aliases, metadata⟩ := m
  have hm : MethodRule javadoc _ _ := .mk name (derives_parameters parameters)
    (derives_arrow Name.mk obfuscated) (derives_metadata metadata) (derives_memberEnd h.aliases)
  cases javadoc with
  | none => exact .method hm hy
  | some doc => exact .other (by simp [Symbol.kind]) (.method hm hy)

def DerivesClass (c : ClassDecl) : Prop :=
  ∃ hs bs c₀ ms, c.symbols = .keyword .classWord :: (hs ++ (bs ++ [.mark .rightBrace])) ∧
    HeaderRule hs c₀ ∧ ClassBody none bs ms ∧ c₀.addMembers ms = c

theorem derives_inner {d : ClassDecl} (h : DerivesClass d) {ys : List Symbol} {ms : List Member}
    (hy : ClassBody none ys ms) : ClassBody none (d.symbols ++ ys) (.inner d :: ms) := by
  obtain ⟨hs, bs, d₀, is, hd, hh, hb, rfl⟩ := h
  rw [hd]
  simpa using ClassBody.inner hh hb hy

theorem derives_members {write : α → List Symbol} {member : α → Member} {as : List α}
    (h : ∀ a ∈ as, ∀ {ys ms}, ClassBody none ys ms → ClassBody none (write a ++ ys) (member a :: ms))
    {ys : List Symbol} {ms : List Member} (hy : ClassBody none ys ms) :
    ClassBody none (as.flatMap write ++ ys) (as.map member ++ ms) := by
  induction as with
  | nil => exact hy
  | cons a as ih =>
    rw [List.flatMap_cons, List.append_assoc]
    apply h a List.mem_cons_self
    exact ih fun b hb => h b (List.mem_cons_of_mem _ hb)

def aliasMembers (as : List Alias) : List Member := if as = [] then [] else [.aliases as]

theorem derives_classAliases {as : List Alias} (h : ∀ a ∈ as, a.Legal) :
    ClassBody none (if as = [] then [] else aliasesSymbols as) (aliasMembers as) := by
  rw [aliasMembers]
  by_cases ha : as = []
  · rw [if_pos ha, if_pos ha]
    exact .done
  · rw [if_neg ha, if_neg ha, ← List.append_nil (aliasesSymbols as)]
    exact .aliases (derives_aliases h) .done

theorem addMembers_sorted (name : String) (obfuscated : Option String) (metadata : Metadata)
    (methods : List MethodDecl) (fields : List FieldDecl) (inner : List ClassDecl) (aliases : List Alias) :
    (ClassDecl.ofHeader name obfuscated metadata).addMembers (methods.map Member.method ++
      (fields.map Member.field ++ (inner.map Member.inner ++ aliasMembers aliases))) =
      ⟨name, obfuscated, metadata, methods, fields, inner, aliases⟩ := by
  have ha : aliasMembers aliases = [] ∧ aliases = [] ∨ aliasMembers aliases = [.aliases aliases] := by
    by_cases h : aliases = []
    · exact .inl ⟨if_pos h, h⟩
    · exact .inr (if_neg h)
  have hn : ∀ {γ : Type} (l : List γ), l.flatMap (fun _ => ([] : List Alias)) = [] := by simp
  rcases ha with ⟨ha, rfl⟩ | ha
  · rw [ha]
    simp [ClassDecl.addMembers, ClassDecl.ofHeader, Function.comp_def, List.flatMap_map, List.filterMap_none,
      hn, Member.method?, Member.field?, Member.inner?, Member.aliasList]
  · rw [ha]
    simp [ClassDecl.addMembers, ClassDecl.ofHeader, Function.comp_def, List.flatMap_map, List.filterMap_none,
      hn, List.filterMap_cons, Member.method?, Member.field?, Member.inner?, Member.aliasList]

theorem derives_class {c : ClassDecl} (h : c.Legal) : DerivesClass c := by
  induction h with
  | @mk c _ _ _ hm hf _ ha ih =>
    obtain ⟨name, obfuscated, metadata, methods, fields, inner, aliases⟩ := c
    have hh := HeaderRule.mk name (derives_arrow derives_qualified obfuscated) (derives_metadata metadata)
    have hi := derives_members (fun d hd => derives_inner (ih d hd)) (derives_classAliases ha)
    have hb := derives_members (fun m h => derives_method (hm m h))
      (derives_members (fun f h => derives_field (hf f h)) hi)
    refine ⟨_, _, _, _, ?_, hh, hb, addMembers_sorted ..⟩
    simp [ClassDecl.symbols, classesSymbols_eq_flatMap]

theorem derives_import (i : Import) : DeclarationRule i.symbols (.importDecl i) := by
  obtain ⟨path, asName⟩ := i
  cases asName with
  | none => exact .importDecl (.mk (derives_qualified path) .absent)
  | some name => exact .importDecl (.mk (derives_qualified path) (.present (.mk name)))

theorem derives_topClass {c : ClassDecl} (h : c.Legal) : DeclarationRule c.symbols (.classDecl c) := by
  obtain ⟨hs, bs, c₀, ms, hc, hh, hb, he⟩ := derives_class h
  rw [hc, ← he]
  exact .classDecl (.mk hh hb)

def Declaration.symbols : Declaration → List Symbol
  | .importDecl i => i.symbols
  | .classDecl c => c.symbols

theorem derives_declarations (imports : List Import) {classes : List ClassDecl} (h : ∀ c ∈ classes, c.Legal) :
    Declarations (imports.flatMap Import.symbols ++ classesSymbols classes)
      (imports.map Declaration.importDecl ++ classes.map Declaration.classDecl) := by
  have hi : imports.flatMap Import.symbols =
      (imports.map Declaration.importDecl).flatMap Declaration.symbols := by
    rw [List.flatMap_map]
    rfl
  have hc : classesSymbols classes = (classes.map Declaration.classDecl).flatMap Declaration.symbols := by
    rw [classesSymbols_eq_flatMap, List.flatMap_map]
    rfl
  rw [hi, hc, ← List.flatMap_append]
  apply derives_items
  intro d hd
  rcases List.mem_append.mp hd with hd | hd
  · obtain ⟨i, -, rfl⟩ := List.mem_map.mp hd
    exact derives_import i
  · obtain ⟨c, hmem, rfl⟩ := List.mem_map.mp hd
    exact derives_topClass (h c hmem)

theorem head?_declarations (imports : List Import) (classes : List ClassDecl) :
    ∀ x ∈ (imports.flatMap Import.symbols ++ classesSymbols classes).head?,
      ¬ x.kind.isComment ∧ x.kind ≠ .keyword .pkg := by
  cases imports with
  | cons i imports =>
    intro x hx
    cases hx
    decide
  | nil =>
    cases classes with
    | nil => simp [classesSymbols]
    | cons c classes =>
      obtain ⟨name, obfuscated, metadata, methods, fields, inner, aliases⟩ := c
      intro x hx
      cases hx
      decide

theorem derives_script {s : Script} (h : s.Legal) : ScriptRule s.symbols s := by
  obtain ⟨package, imports, classes⟩ := s
  have hd := derives_declarations imports h.classes
  have hs : Script.ofDeclarations package (imports.map Declaration.importDecl ++
      classes.map Declaration.classDecl) = ⟨package, imports, classes⟩ := by
    simp [Script.ofDeclarations, Function.comp_def, Declaration.import?, Declaration.class?]
  cases package with
  | none =>
    have hb := ScriptRule.bare (List.forall_mem_nil _) (head?_declarations imports classes) hd
    rw [hs] at hb
    exact hb
  | some name =>
    have hp := ScriptRule.packaged (List.forall_mem_nil _) (derives_qualified name) hd
    rw [hs] at hp
    simpa [Script.symbols, packageSymbols] using hp

end ObfuscationMap
