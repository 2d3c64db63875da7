import ObfuscationMap.ClassName
import ObfuscationMap.Proofs.Legality

/-!
Mappings that were compiled are legal. Settling the names of a legal script leaves only identifiers and
qualified names, and so do the names that a version chooses and the packages that are put in front.
-/

namespace ObfuscationMap

theorem Import.Legal.key {i : Import} (h : i.Legal) : isIdentifier i.key := by
  rw [Import.key]
  cases ha : i.asName with
  | none => exact List.all_eq_true.mp h.path _ (isLastPart_lastPart i.path).mem_nameParts
  | some name => exact h.asName name ha

structure FieldMapping.Legal (f : FieldMapping) : Prop where
  name : isIdentifier f.name
  obfuscated : isIdentifier f.obfuscated
  metadata : f.metadata.Legal
  aliases : ∀ a ∈ f.aliases, a.Legal

structure MethodMapping.Legal (m : MethodMapping) : Prop where
  name : isIdentifier m.name
  obfuscated : isIdentifier m.obfuscated
  parameters : ∀ p ∈ m.parameters, isQualified p.type
  javadoc : ∀ doc ∈ m.javadoc, IsDocumentation doc
  metadata : m.metadata.Legal
  aliases : ∀ a ∈ m.aliases, a.Legal

inductive ClassMapping.Legal : ClassMapping → Prop
  | mk {c : ClassMapping} : isIdentifier c.name → isQualified c.obfuscated → c.metadata.Legal →
      (∀ m ∈ c.methods, m.Legal) → (∀ f ∈ c.fields, f.Legal) → (∀ d ∈ c.inner, d.Legal) →
      (∀ a ∈ c.aliases, a.Legal) → c.Legal

structure Mapping.Legal (t : Mapping) : Prop where
  package : t.package = "" ∨ isQualified t.package
  imports : ∀ e ∈ t.imports.entries, isIdentifier e.1 ∧ isQualified e.2
  classes : ∀ c ∈ t.classes, c.Legal

theorem forall_getD {P : String → Prop} {o : Option String} {name : String} (hn : P name)
    (ho : ∀ other ∈ o, P other) : P (o.getD name) := by
  cases o with
  | none => exact hn
  | some other => exact ho other rfl

theorem legal_importTable {imports : List Import} (h : ∀ i ∈ imports, i.Legal) :
    ∀ e ∈ (importTable imports).entries, isIdentifier e.1 ∧ isQualified e.2 := by
  intro e he
  obtain ⟨i, hi, rfl⟩ := List.mem_map.mp (OrderedMap.mem_of_mem_ofList he)
  exact ⟨(h i hi).key, (h i hi).path⟩

section resolve

variable {table : OrderedMap String} (ht : ∀ e ∈ table.entries, isIdentifier e.1 ∧ isQualified e.2)
include ht

theorem isQualified_resolveType {type : String} (h : isQualified type) :
    isQualified (resolveType table type) := by
  rw [resolveType, OrderedMap.find?]
  cases hf : table.entries.find? fun e => e.1 == type with
  | none => exact h
  | some e => exact (ht e (List.mem_of_find?_eq_some hf)).2

theorem legal_resolve_method {m : MethodDecl} (h : m.Legal) : (m.resolve table).Legal := by
  refine ⟨h.name, forall_getD (P := fun w => isIdentifier w) h.name h.obfuscated, fun p hp => ?_, h.javadoc,
    h.metadata, h.aliases⟩
  obtain ⟨q, hq, rfl⟩ := List.mem_map.mp hp
  exact isQualified_resolveType ht (h.parameters q hq)

omit ht in
theorem legal_resolve_field {f : FieldDecl} (h : f.Legal) : f.resolve.Legal :=
  ⟨h.name, forall_getD (P := fun w => isIdentifier w) h.name h.obfuscated, h.metadata, h.aliases⟩

theorem legal_resolve_class {c : ClassDecl} (h : c.Legal) : (c.resolve table).Legal := by
  induction h with
  | @mk c hn ho hd hms hfs _ has ih =>
    rw [c.resolve_eq]
    refine .mk hn ?_ hd ?_ ?_ ?_ has
    · exact forall_getD (P := fun w => isQualified w) (isQualified_identifier hn) ho
    · exact List.forall_mem_map.mpr fun m hm => legal_resolve_method ht (hms m hm)
    · exact List.forall_mem_map.mpr fun f hf => legal_resolve_field (hfs f hf)
    · exact List.forall_mem_map.mpr ih

end resolve

theorem Script.Legal.resolve {s : Script} (h : s.Legal) : s.resolve.Legal := by
  have ht := legal_importTable h.imports
  refine ⟨?_, ht, fun c hc => ?_⟩
  · change s.package.getD "" = "" ∨ isQualified (s.package.getD "")
    cases hp : s.package with
    | none => exact .inl rfl
    | some name => exact .inr (h.package name hp)
  · rw [s.classes_resolve] at hc
    obtain ⟨d, hd, rfl⟩ := List.mem_map.mp hc
    exact legal_resolve_class ht (h.classes d hd)

theorem legal_of_compile {source : String} {t : Mapping} (h : compile source = .ok t) : t.Legal := by
  obtain ⟨ts, s, ht, hp, rfl⟩ := compile_eq_ok h
  exact (legal_of_parse ht hp).resolve

theorem legal_of_compile_all {sources : List String} {ts : List Mapping} (h : sources.map compile = ts.map .ok) :
    ∀ t ∈ ts, t.Legal := by
  intro t ht
  have hm : Except.ok t ∈ sources.map compile := h ▸ List.mem_map_of_mem ht
  obtain ⟨source, -, hs⟩ := List.mem_map.mp hm
  exact legal_of_compile hs

namespace Renaming

theorem nameIn?_mem {r : Renaming} {v : Version} {name : String} (h : r.nameIn? v = some name) :
    ∃ a ∈ r.aliases, ¬ a.removed ∧ a.name = name := by
  cases v with
  | none => cases h
  | some v =>
    obtain ⟨a, hf, rfl⟩ := Option.map_eq_some_iff.mp h
    have ha := List.find?_some hf
    rw [Bool.and_eq_true, Bool.not_eq_true'] at ha
    exact ⟨a, List.mem_of_find?_eq_some hf, by simp [ha.2], rfl⟩

theorem resolve_legal {r : Renaming} {P : String → Prop} (hd : P r.obfuscated)
    (ha : ∀ a ∈ r.aliases, a.Legal) (hp : ∀ w, isIdentifier w → P w) (v : Version) : P (r.resolve v) := by
  rw [resolve]
  cases hn : r.nameIn? v with
  | none => exact hd
  | some name =>
    obtain ⟨a, hmem, hr, rfl⟩ := nameIn?_mem hn
    exact hp _ ((ha a hmem).live hr).1

end Renaming

theorem FieldMapping.Legal.resolve {f : FieldMapping} (h : f.Legal) (v : Version) :
    isIdentifier (f.resolve v) := Renaming.resolve_legal h.obfuscated h.aliases (fun _ hw => hw) v

theorem MethodMapping.Legal.resolve {m : MethodMapping} (h : m.Legal) (v : Version) :
    isIdentifier (m.resolve v) := Renaming.resolve_legal h.obfuscated h.aliases (fun _ hw => hw) v

theorem ClassMapping.Legal.resolve {c : ClassMapping} (h : c.Legal) (v : Version) :
    isQualified (c.resolve v) := by
  cases h with
  | mk _ ho _ _ _ _ ha =>
    exact Renaming.resolve_legal (P := fun w => isQualified w) ho ha (fun _ => isQualified_identifier) v

section full

variable {t : Mapping} {c : ClassMapping} (ht : t.Legal) (hc : c ∈ t.classes)
include ht hc

theorem Mapping.Legal.fullName : isQualified (t.fullName c) := by
  cases ht.classes c hc with
  | mk hn _ _ _ _ _ _ => exact isQualified_qualify ht.package (isQualified_identifier hn)

theorem Mapping.Legal.obfuscatedFullName (v : Version) : isQualified (t.obfuscatedFullName c v) := by
  have hr := (ht.classes c hc).resolve v
  rw [Mapping.obfuscatedFullName]
  split
  · exact hr
  · exact isQualified_qualify ht.package hr

end full

end ObfuscationMap
