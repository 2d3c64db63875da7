import ObfuscationMap.Proofs.ClassNames
import ObfuscationMap.Proofs.Index
import ObfuscationMap.Proofs.Legality.Resolution
import ObfuscationMap.Proofs.Versions.Answers

/-!
The remapper and the index for sources of one package. The remapper knows classes by their full names inside a
virtual machine, the index by their own names. In one package each kind of name determines the other, so both
find the same class, the first one of the name. Putting its obfuscated name into the package and into the other
notation turns the answer of the index into that of the remapper.
-/

namespace ObfuscationMap

def inPackage (package name : String) : String := if '.' ∈ name.toList then name else qualify package name

def firstNamed? (ts : List Mapping) (name : String) : Option ClassMapping :=
  (ts.flatMap (·.classes)).find? fun c => c.name == name

theorem internalName_eq_iff {a b : String} (ha : isQualified a) (hb : isQualified b) :
    internalName a = internalName b ↔ a = b := by
  refine ⟨fun h => ?_, congrArg internalName⟩
  rw [← dottedName_internalName ha, h, dottedName_internalName hb]

section index

variable (ts : List Mapping) (name : String) (v : Version)

theorem searchKind_own : (searchKind SourcedClass.names (outermost ts) name v .own).map SourcedClass.mapping =
    firstNamed? ts name := by
  rw [firstNamed?, ← map_mapping_outermost, List.find?_map]
  rfl

theorem obfuscate_firstNamed :
    (Index.ofSources ts).obfuscate name v = (firstNamed? ts name).map (·.resolve v) := by
  rw [(Index.scans_ofSources ts).obfuscate, search_cons, search_nil, Option.or_none, ← searchKind_own ts name v,
    Option.map_map]
  rfl

variable {ts name}

theorem findField_firstNamed {c : ClassMapping} (h : firstNamed? ts name = some c) (f : String) :
    (Index.ofSources ts).findField name f v = c.findField f v := by
  rw [← searchKind_own ts name v, Option.map_eq_some_iff] at h
  obtain ⟨d, hd, rfl⟩ := h
  rw [Index.findField, Index.findClass_ofSources, search_cons, hd]
  rfl

end index

namespace Remapper

variable {ts : List Mapping} {package name : String}

theorem address_eq_iff {c : OwnedClass} (ht : c.owner.Legal) (hp : c.owner.package = package)
    (hc : c.mapping ∈ c.owner.classes) (hn : isIdentifier name) :
    address c = internalName (qualify package name) ↔ c.mapping.name = name := by
  have hname : isIdentifier c.mapping.name := by
    obtain ⟨hname, -⟩ := ht.classes _ hc
    exact hname
  have hpackage := hp ▸ ht.package
  rw [address, Mapping.fullName, hp, internalName_eq_iff
    (isQualified_qualify hpackage (isQualified_identifier hname))
    (isQualified_qualify hpackage (isQualified_identifier hn)), (qualify_injective package).eq_iff]

theorem mem_ownedClasses {c : OwnedClass} (h : c ∈ ownedClasses ts) : c.owner ∈ ts ∧ c.mapping ∈ c.owner.classes := by
  obtain ⟨t, ht, hc⟩ := List.mem_flatMap.mp h
  obtain ⟨d, hd, rfl⟩ := List.mem_map.mp hc
  exact ⟨ht, hd⟩

theorem owner_mem {v : Version} {owner : String} {c : OwnedClass}
    (h : (ofSources ts v).classes[owner]? = some c) : c.owner ∈ ts := by
  rw [classes_ofSources] at h
  exact (mem_ownedClasses (List.mem_of_find?_eq_some h)).1

theorem map_mapping_ownedClasses (ts : List Mapping) :
    (ownedClasses ts).map OwnedClass.mapping = ts.flatMap (·.classes) := by
  simp only [ownedClasses, List.map_flatMap, List.map_map, Function.comp_def, List.map_id']

theorem classes_package (hl : ∀ t ∈ ts, t.Legal) (hp : ∀ t ∈ ts, t.package = package) (hn : isIdentifier name)
    (v : Version) : ((ofSources ts v).classes[internalName (qualify package name)]?).map OwnedClass.mapping =
      firstNamed? ts name := by
  rw [classes_ofSources, firstNamed?, ← map_mapping_ownedClasses, List.find?_map]
  congr 1
  refine List.find?_congr fun c hc => ?_
  obtain ⟨ht, hm⟩ := mem_ownedClasses hc
  rw [Bool.eq_iff_iff, beq_iff_eq, address_eq_iff (hl _ ht) (hp _ ht) hm hn]
  exact beq_iff_eq.symm

end Remapper

/-- In one package the remapper answers as the index does, about classes and about the fields of a class that
is declared by its name. -/
theorem remapper_answers_index {sources : List String} {ts : List Mapping} {package name : String}
    (hc : sources.map compile = ts.map .ok) (hp : ∀ t ∈ ts, t.package = package) (hn : isIdentifier name)
    (v : Version) :
    let r := (Remapper.ofSession (.ofSources ts)).useVersion v
    let i := Index.ofSources ts
    let owner := internalName (qualify package name)
    r.mapClass owner = ((i.obfuscate name v).map fun o => internalName (inPackage package o)).getD owner ∧
    ((∃ t ∈ ts, ∃ c ∈ t.classes, c.name = name) → ∀ field,
      r.mapField owner field = ((i.findField name field v).map fun f => f.resolve v).getD field) := by
  intro r i owner
  have hclass : (r.classes[owner]?).map OwnedClass.mapping = firstNamed? ts name :=
    Remapper.classes_package (legal_of_compile_all hc) hp hn v
  constructor
  · rw [Remapper.mapClass_eq, obfuscate_firstNamed, ← hclass, Option.map_map, Option.map_map]
    cases hr : r.classes[owner]? with
    | none => rfl
    | some c =>
      have hpackage : c.owner.package = package := hp _ (Remapper.owner_mem hr)
      rw [← hpackage]
      rfl
  · rintro ⟨t, ht, c, hmem, hname⟩ field
    cases hf : firstNamed? ts name with
    | none =>
      have hnone := List.find?_eq_none.mp hf c (List.mem_flatMap.mpr ⟨t, ht, hmem⟩)
      exact absurd (beq_iff_eq.mpr hname) hnone
    | some d =>
      rw [findField_firstNamed v hf, Remapper.mapField_eq]
      rw [hf, Option.map_eq_some_iff] at hclass
      obtain ⟨e, he, rfl⟩ := hclass
      rw [he]
      rfl

theorem remapper_answers_index_shadowed :
    let first : String := "pkg a; class B <- b \x7b fd x <- y; aliases \x7b v h; \x7d \x7d"
    let second : String := "pkg a; class B <- c \x7b fd y; \x7d"
    let v : Version := some "v"
    ∃ ts, [first, second].map compile = ts.map .ok ∧ (∀ t ∈ ts, t.package = "a") ∧ isIdentifier "B" ∧
      (∃ t ∈ ts, ∃ c ∈ t.classes, c.name = "B") ∧
      let r := (Remapper.ofSession (.ofSources ts)).useVersion v
      let i := Index.ofSources ts
      let owner := internalName (qualify "a" "B")
      r.mapClass owner = ((i.obfuscate "B" v).map fun o => internalName (inPackage "a" o)).getD owner ∧
      r.mapField owner "y" = ((i.findField "B" "y" v).map fun f => f.resolve v).getD "y" := by
  intro first second v
  let s : Script := ⟨some "a", [], [⟨"B", some "b", .empty, [], [⟨"x", some "y", [], .empty⟩], [],
    [.live "v" "h" .empty]⟩]⟩
  let s' : Script := ⟨some "a", [], [⟨"B", some "c", .empty, [], [⟨"y", none, [], .empty⟩], [], []⟩]⟩
  let ts : List Mapping := [s.resolve, s'.resolve]
  have h : compile first = .ok s.resolve :=
    compile_of_symbols (by unfold first; cbv) (by decide) (by cbv)
  have h' : compile second = .ok s'.resolve :=
    compile_of_symbols (by unfold second; cbv) (by decide) (by cbv)
  have hc : [first, second].map compile = ts.map .ok := by
    simp only [ts, List.map_cons, List.map_nil, h, h']
  have hp : ∀ t ∈ ts, t.package = "a" := by decide
  have hn : isIdentifier "B" := by decide
  have hmem : ∃ t ∈ ts, ∃ c ∈ t.classes, c.name = "B" := by decide
  obtain ⟨hclass, hfield⟩ := remapper_answers_index hc hp hn v
  exact ⟨ts, hc, hp, hn, hmem, hclass, hfield hmem "y"⟩

end ObfuscationMap
