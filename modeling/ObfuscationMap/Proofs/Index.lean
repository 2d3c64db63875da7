import ObfuscationMap.Index.Query
import ObfuscationMap.Proofs.Lookup

/-!
Questions to an index, answered by searches. The tables of an index lead from each name to the first class
that has it, so every answer can be found by going through the outermost classes, in the order of the
sources and of the places there. What the tables refer to is there.
-/

namespace ObfuscationMap

inductive NameKind
  | own | default | versioned
  deriving DecidableEq, Repr

/-- The name of a kind. Only a version has names of its own, and not for everything. -/
def Renaming.nameOf? (r : Renaming) (v : Version) : NameKind → Option String
  | .own => some r.name
  | .default => some r.obfuscated
  | .versioned => r.nameIn? v

theorem Renaming.nameIn?_some (r : Renaming) (v : String) :
    r.nameIn? (some v) = (r.liveAliases.find? fun a => a.version == v).map (·.name) := by
  rw [nameIn?, liveAliases, List.find?_filter]
  congr 2
  funext a
  rw [Bool.eq_iff_iff, Bool.and_eq_true, decide_eq_true_eq, and_comm]

section search

variable {α β : Type} {names : α → Renaming} {as bs : List α} {name : String} {v : Version}

def searchKind (names : α → Renaming) (as : List α) (name : String) (v : Version) (k : NameKind) :
    Option α :=
  as.find? fun a => (names a).nameOf? v k == some name

/-- The first thing of that name, where one kind of names is tried after the other. -/
def search (names : α → Renaming) (as : List α) (name : String) (v : Version) (kinds : List NameKind) :
    Option α :=
  kinds.findSome? (searchKind names as name v)

theorem search_nil : search names as name v [] = none := rfl

theorem search_cons (k : NameKind) (ks : List NameKind) : search names as name v (k :: ks) =
    (searchKind names as name v k).or (search names as name v ks) := by
  rw [search, List.findSome?_cons]
  cases searchKind names as name v k <;> rfl

theorem searchKind_append (k : NameKind) : searchKind names (as ++ bs) name v k =
    (searchKind names as name v k).or (searchKind names bs name v k) :=
  List.find?_append

theorem searchKind_map (names : α → Renaming) (f : β → α) (bs : List β) (k : NameKind) :
    searchKind names (bs.map f) name v k = (searchKind (fun b => names (f b)) bs name v k).map f :=
  List.find?_map

theorem search_map (names : α → Renaming) (f : β → α) (bs : List β) (ks : List NameKind) :
    search names (bs.map f) name v ks = (search (fun b => names (f b)) bs name v ks).map f := by
  induction ks with
  | nil => rfl
  | cons k ks ih => rw [search_cons, search_cons, ih, searchKind_map, Option.map_or]

theorem search_hit {a : α} {ks : List NameKind} (h : search names as name v ks = some a) :
    a ∈ as ∧ ∃ k ∈ ks, (names a).nameOf? v k = some name := by
  obtain ⟨k, hk, hf⟩ := List.exists_of_findSome?_eq_some h
  exact ⟨List.mem_of_find?_eq_some hf, k, hk, by simpa using List.find?_some hf⟩

theorem findMember_eq_search (names : α → Renaming) (ms : List α) (name : String) (v : Version) :
    findMember names ms name v = search names ms name v [.own, .versioned, .default] := by
  simp only [findMember, search_cons, search_nil, Option.or_none, Option.orElse_eq_orElse,
    Option.orElse_eq_or]
  rfl

end search

def SourcedClass.names (c : SourcedClass) : Renaming := c.mapping.toRenaming

def Mapping.sourced (t : Mapping) (source : Nat) : List SourcedClass :=
  t.classes.zipIdx.map fun c => ⟨source, c.2, c.1⟩

def outermost (ts : List Mapping) : List SourcedClass := ts.zipIdx.flatMap fun t => t.1.sourced t.2

def classAt? (ts : List Mapping) (source place : Nat) : Option ClassMapping :=
  ts[source]?.bind fun t => t.classes[place]?

theorem mem_sourced {t : Mapping} {source : Nat} {c : SourcedClass} :
    c ∈ t.sourced source ↔ c.source = source ∧ t.classes[c.place]? = some c.mapping := by
  rw [Mapping.sourced, List.mem_map]
  constructor
  · rintro ⟨⟨m, k⟩, hm, rfl⟩
    exact ⟨rfl, List.mem_zipIdx_iff_getElem?.mp hm⟩
  · rintro ⟨rfl, hm⟩
    exact ⟨(c.mapping, c.place), List.mem_zipIdx_iff_getElem?.mpr hm, rfl⟩

theorem mem_outermost {ts : List Mapping} {c : SourcedClass} :
    c ∈ outermost ts ↔ classAt? ts c.source c.place = some c.mapping := by
  rw [outermost, List.mem_flatMap, classAt?, Option.bind_eq_some_iff]
  constructor
  · rintro ⟨⟨t, n⟩, ht, hc⟩
    obtain ⟨rfl, hm⟩ := mem_sourced.mp hc
    exact ⟨t, List.mem_zipIdx_iff_getElem?.mp ht, hm⟩
  · rintro ⟨t, ht, hm⟩
    exact ⟨(t, c.source), List.mem_zipIdx_iff_getElem?.mpr ht, mem_sourced.mpr ⟨rfl, hm⟩⟩

theorem map_mapping_sourced (t : Mapping) (source : Nat) :
    (t.sourced source).map SourcedClass.mapping = t.classes := by
  rw [Mapping.sourced, List.map_map]
  exact List.zipIdx_map_fst 0 t.classes

theorem map_mapping_outermost (ts : List Mapping) :
    (outermost ts).map SourcedClass.mapping = ts.flatMap (·.classes) := by
  have hz : ts.zipIdx.map Prod.fst = ts := List.zipIdx_map_fst 0 ts
  conv_rhs => rw [← hz, List.flatMap_map]
  simp only [outermost, List.map_flatMap, map_mapping_sourced]

theorem exists_of_mem_outermost {ts : List Mapping} {c : SourcedClass} (h : c ∈ outermost ts) :
    ∃ t ∈ ts, c.mapping ∈ t.classes := by
  have hm := List.mem_map_of_mem (f := SourcedClass.mapping) h
  rw [map_mapping_outermost] at hm
  exact List.mem_flatMap.mp hm

namespace NameTable

theorem byName_foldl (cs : List SourcedClass) (t : NameTable) :
    (cs.foldl add t).byName = cs.foldl (fun m c => m.insertIfNew c.mapping.name c) t.byName := by
  induction cs generalizing t with
  | nil => rfl
  | cons c cs ih => exact ih (t.add c)

theorem byObfuscated_foldl (cs : List SourcedClass) (t : NameTable) :
    (cs.foldl add t).byObfuscated =
      cs.foldl (fun m c => m.insertIfNew c.mapping.obfuscated c) t.byObfuscated := by
  induction cs generalizing t with
  | nil => rfl
  | cons c cs ih => exact ih (t.add c)

theorem byName_ofClasses (cs : List SourcedClass) (name : String) (v : Version) :
    (ofClasses cs).byName[name]? = searchKind SourcedClass.names cs name v .own := by
  rw [ofClasses, byName_foldl, getElem?_insertIfNew_all, empty, Std.HashMap.getElem?_empty,
    Option.none_or]
  rfl

theorem byObfuscated_ofClasses (cs : List SourcedClass) (name : String) (v : Version) :
    (ofClasses cs).byObfuscated[name]? = searchKind SourcedClass.names cs name v .default := by
  rw [ofClasses, byObfuscated_foldl, getElem?_insertIfNew_all, empty, Std.HashMap.getElem?_empty,
    Option.none_or]
  rfl

def Refers (t : NameTable) (c : SourcedClass) : Prop :=
  ∃ name : String, t.byName[name]? = some c ∨ t.byObfuscated[name]? = some c

theorem Refers.mem {cs : List SourcedClass} {c : SourcedClass} (h : (ofClasses cs).Refers c) : c ∈ cs := by
  obtain ⟨name, h | h⟩ := h
  · exact List.mem_of_find?_eq_some ((byName_ofClasses cs name none).symm.trans h)
  · exact List.mem_of_find?_eq_some ((byObfuscated_ofClasses cs name none).symm.trans h)

end NameTable

theorem findByAlias_eq (cs : List SourcedClass) (name : String) (v : Version) :
    findByAlias cs name v = searchKind SourcedClass.names cs name v .versioned := rfl

theorem findIn_ofClasses (cs : List SourcedClass) (name : String) (v : Version) :
    Index.findIn (.ofClasses cs) cs name v =
      search SourcedClass.names cs name v [.own, .default, .versioned] := by
  rw [Index.findIn, NameTable.byName_ofClasses cs name v, NameTable.byObfuscated_ofClasses cs name v,
    findByAlias_eq]
  simp only [search_cons, search_nil, Option.or_none, Option.orElse_eq_orElse, Option.orElse_eq_or]

theorem findObfuscatedIn_ofClasses (cs : List SourcedClass) (name : String) (v : Version) :
    (findByAlias cs name v <|> (NameTable.ofClasses cs).byObfuscated[name]?) =
      search SourcedClass.names cs name v [.versioned, .default] := by
  rw [NameTable.byObfuscated_ofClasses cs name v, findByAlias_eq]
  simp only [search_cons, search_nil, Option.or_none, Option.orElse_eq_orElse, Option.orElse_eq_or]

namespace Index

variable (ts : List Mapping) (name : String) (v : Version)

theorem classes_ofSources : (ofSources ts).classes = outermost ts := by
  rw [classes, ofSources, List.flatMap_map]
  rfl

theorem names_ofSources : (ofSources ts).names = .ofClasses (outermost ts) := by
  rw [← classes_ofSources]
  rfl

theorem obfuscateWithSource_ofSources : (ofSources ts).obfuscateWithSource name v =
    (search SourcedClass.names (outermost ts) name v [.own]).map
      fun c => (c.mapping.resolve v, c.source) := by
  rw [obfuscateWithSource, names_ofSources, NameTable.byName_ofClasses _ name v, search_cons, search_nil,
    Option.or_none]

theorem deobfuscateWithSource_ofSources : (ofSources ts).deobfuscateWithSource name v =
    (search SourcedClass.names (outermost ts) name v [.versioned, .default]).map
      fun c => (c.mapping.name, c.source) := by
  rw [deobfuscateWithSource, findObfuscated, names_ofSources, classes_ofSources,
    findObfuscatedIn_ofClasses]

theorem findClass_ofSources : (ofSources ts).findClass name v =
    search SourcedClass.names (outermost ts) name v [.own, .default, .versioned] := by
  rw [findClass, names_ofSources, classes_ofSources, findIn_ofClasses]

theorem filterMap_bySource {β : Type} (f : SourceIndex → Option β) :
    (ofSources ts).bySource.filterMap f = ts.zipIdx.filterMap fun t => f (.ofMapping t.1 t.2) := by
  rw [ofSources, List.filterMap_map]
  rfl

theorem obfuscateAll_ofSources : (ofSources ts).obfuscateAll name v = ts.zipIdx.filterMap fun t =>
    (search SourcedClass.names (t.1.sourced t.2) name v [.own]).map
      fun c => (c.mapping.resolve v, c.source) := by
  rw [obfuscateAll, filterMap_bySource]
  simp only [search_cons, search_nil, Option.or_none, ← NameTable.byName_ofClasses]
  rfl

theorem deobfuscateAll_ofSources : (ofSources ts).deobfuscateAll name v = ts.zipIdx.filterMap fun t =>
    (search SourcedClass.names (t.1.sourced t.2) name v [.versioned, .default]).map
      fun c => (c.mapping.name, c.source) := by
  rw [deobfuscateAll, filterMap_bySource]
  simp only [← findObfuscatedIn_ofClasses]
  rfl

theorem findAllClasses_ofSources : (ofSources ts).findAllClasses name v = ts.zipIdx.filterMap fun t =>
    search SourcedClass.names (t.1.sourced t.2) name v [.own, .default, .versioned] := by
  rw [findAllClasses, filterMap_bySource]
  simp only [← findIn_ofClasses]
  rfl

/-- Every question about single classes and members is a search through the classes `cs`. -/
structure Scans (i : Index) (cs : List SourcedClass) : Prop where
  obfuscateWithSource : ∀ name v, i.obfuscateWithSource name v =
    (search SourcedClass.names cs name v [.own]).map fun c => (c.mapping.resolve v, c.source)
  obfuscate : ∀ name v, i.obfuscate name v =
    (search SourcedClass.names cs name v [.own]).map fun c => c.mapping.resolve v
  deobfuscateWithSource : ∀ name v, i.deobfuscateWithSource name v =
    (search SourcedClass.names cs name v [.versioned, .default]).map fun c => (c.mapping.name, c.source)
  deobfuscate : ∀ name v, i.deobfuscate name v =
    (search SourcedClass.names cs name v [.versioned, .default]).map fun c => c.mapping.name
  findClass : ∀ name v, i.findClass name v =
    search SourcedClass.names cs name v [.own, .default, .versioned]
  findMethod : ∀ className name v, i.findMethod className name v =
    (search SourcedClass.names cs className v [.own, .default, .versioned]).bind fun c =>
      search (·.toRenaming) c.mapping.methods name v [.own, .versioned, .default]
  findField : ∀ className name v, i.findField className name v =
    (search SourcedClass.names cs className v [.own, .default, .versioned]).bind fun c =>
      search (·.toRenaming) c.mapping.fields name v [.own, .versioned, .default]

/-- There is a table for each source, and what the tables refer to stands where they say. -/
structure InRange (i : Index) : Prop where
  tables : i.bySource.length = i.sources.length
  merged : ∀ c, i.names.Refers c → classAt? i.sources c.source c.place = some c.mapping
  ofSource : ∀ n s, i.bySource[n]? = some s → ∀ c, s.names.Refers c →
    c.source = n ∧ classAt? i.sources n c.place = some c.mapping

theorem scans_ofSources : (ofSources ts).Scans (outermost ts) where
  obfuscateWithSource := obfuscateWithSource_ofSources ts
  obfuscate := by
    intro name v
    rw [obfuscate, obfuscateWithSource_ofSources, Option.map_map]
    rfl
  deobfuscateWithSource := deobfuscateWithSource_ofSources ts
  deobfuscate := by
    intro name v
    rw [deobfuscate, deobfuscateWithSource_ofSources, Option.map_map]
    rfl
  findClass := findClass_ofSources ts
  findMethod := by
    intro className name v
    rw [findMethod, findClass_ofSources]
    simp only [ClassMapping.findMethod, findMember_eq_search]
  findField := by
    intro className name v
    rw [findField, findClass_ofSources]
    simp only [ClassMapping.findField, findMember_eq_search]

theorem inRange_ofSources : (ofSources ts).InRange where
  tables := by
    rw [ofSources, List.length_map, List.length_zipIdx]
  merged := by
    intro c hc
    rw [names_ofSources] at hc
    exact mem_outermost.mp hc.mem
  ofSource := by
    intro n s hs c hc
    have hz : (ts.zipIdx.map fun t => SourceIndex.ofMapping t.1 t.2)[n]? = some s := hs
    rw [List.getElem?_map, List.getElem?_zipIdx, Option.map_map, Option.map_eq_some_iff] at hz
    obtain ⟨t, ht, rfl⟩ := hz
    have hmem : c ∈ t.sourced (0 + n) := hc.mem
    rw [Nat.zero_add, mem_sourced] at hmem
    obtain ⟨rfl, hm⟩ := hmem
    refine ⟨rfl, ?_⟩
    change classAt? ts c.source c.place = _
    rw [classAt?, ht, Option.bind_some, hm]

/-- The index of any mappings answers as a search through their classes would, and refers to nothing that is
not there. -/
theorem answers_by_search : (ofSources ts).Scans (outermost ts) ∧ (ofSources ts).InRange :=
  ⟨scans_ofSources ts, inRange_ofSources ts⟩

end Index

end ObfuscationMap
