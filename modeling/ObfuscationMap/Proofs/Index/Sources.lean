import ObfuscationMap.Proofs.Index.Merging
import Mathlib.Data.List.Find

/-!
Questions to all sources, compared with questions to one. Every source that knows a name by itself gives one
entry to the list of all answers, in the order of the sources, and nothing else is in the list. The answer
over all sources can be told from the list: it is the first entry, where a name of the version, if asked for
first, gives an entry preference.
-/

namespace ObfuscationMap

/-- What the search finds in each of the sources by itself. -/
def searchEach (ts : List Mapping) (name : String) (v : Version) (ks : List NameKind) :
    List SourcedClass :=
  ts.zipIdx.filterMap fun t => search SourcedClass.names (t.1.sourced t.2) name v ks

theorem increasing_zipIdx {α : Type} (as : List α) (n : Nat) :
    (as.zipIdx n).Pairwise fun a b => a.2 < b.2 := by
  induction as generalizing n with
  | nil => exact .nil
  | cons a as ih =>
    rw [List.zipIdx_cons, List.pairwise_cons]
    exact ⟨fun b hb => List.le_snd_of_mem_zipIdx hb, ih (n + 1)⟩

section searches

variable {ts : List Mapping} {name : String} {v : Version} {k : NameKind} {ks : List NameKind}
  {c : SourcedClass}

theorem outermost_single (t : Mapping) : outermost [t] = t.sourced 0 := List.append_nil _

theorem search_sourced (t : Mapping) (n : Nat) (name : String) (v : Version) (ks : List NameKind) :
    search SourcedClass.names (t.sourced n) name v ks =
      (search SourcedClass.names (outermost [t]) name v ks).map (·.raise n) := by
  rw [outermost_single, ← search_raise, ← sourced_add, Nat.zero_add]

theorem source_of_search {t : Mapping} {n : Nat}
    (h : search SourcedClass.names (t.sourced n) name v ks = some c) : c.source = n :=
  (mem_sourced.mp (search_hit h).1).1

theorem mem_searchEach : c ∈ searchEach ts name v ks ↔
    ∃ t, ts[c.source]? = some t ∧ search SourcedClass.names (t.sourced c.source) name v ks = some c := by
  rw [searchEach, List.mem_filterMap]
  constructor
  · rintro ⟨⟨t, n⟩, ht, hc⟩
    obtain rfl := source_of_search hc
    exact ⟨t, List.mem_zipIdx_iff_getElem?.mp ht, hc⟩
  · rintro ⟨t, ht, hc⟩
    exact ⟨(t, c.source), List.mem_zipIdx_iff_getElem?.mpr ht, hc⟩

theorem increasing_searchEach :
    (searchEach ts name v ks).Pairwise fun c d => c.source < d.source := by
  refine (increasing_zipIdx ts 0).filterMap _ ?_
  intro t u hlt c hc d hd
  rw [source_of_search hc, source_of_search hd]
  exact hlt

theorem searchKind_sources (ts : List Mapping) (name : String) (v : Version) (k : NameKind) :
    searchKind SourcedClass.names (outermost ts) name v k =
      ts.zipIdx.findSome? fun t => searchKind SourcedClass.names (t.1.sourced t.2) name v k :=
  List.find?_flatMap

theorem search_single (ts : List Mapping) (name : String) (v : Version) (k : NameKind) :
    search SourcedClass.names (outermost ts) name v [k] = (searchEach ts name v [k]).head? := by
  rw [searchEach, List.head?_filterMap]
  simp only [search_cons, search_nil, Option.or_none]
  exact searchKind_sources ts name v k

theorem searchKind_eq_none {n : Nat} {t : Mapping}
    (h : searchKind SourcedClass.names (outermost ts) name v k = none) (ht : (t, n) ∈ ts.zipIdx) :
    searchKind SourcedClass.names (t.sourced n) name v k = none := by
  rw [searchKind_sources, List.findSome?_eq_none_iff] at h
  exact h (t, n) ht

theorem searchEach_cons_of_none (h : searchKind SourcedClass.names (outermost ts) name v k = none) :
    searchEach ts name v (k :: ks) = searchEach ts name v ks := by
  refine List.filterMap_congr ?_
  rintro ⟨t, n⟩ ht
  rw [search_cons, searchKind_eq_none h ht, Option.none_or]

theorem mem_searchEach_of_search (h : search SourcedClass.names (outermost ts) name v ks = some c) :
    c ∈ searchEach ts name v ks := by
  induction ks with
  | nil => cases h
  | cons k ks ih =>
    rw [search_cons] at h
    cases hk : searchKind SourcedClass.names (outermost ts) name v k with
    | none =>
      rw [hk, Option.none_or] at h
      rw [searchEach_cons_of_none hk]
      exact ih h
    | some d =>
      rw [hk, Option.some_or] at h
      obtain rfl := Option.some.inj h
      rw [searchKind_sources] at hk
      obtain ⟨t, ht, hd⟩ := List.exists_of_findSome?_eq_some hk
      rw [searchEach, List.mem_filterMap]
      refine ⟨t, ht, ?_⟩
      rw [search_cons, hd, Option.some_or]

theorem search_eq_none_iff :
    search SourcedClass.names (outermost ts) name v ks = none ↔ searchEach ts name v ks = [] := by
  constructor
  · intro h
    induction ks with
    | nil =>
      rw [searchEach, List.filterMap_eq_nil_iff]
      exact fun _ _ => rfl
    | cons k ks ih =>
      rw [search_cons, Option.or_eq_none_iff] at h
      rw [searchEach_cons_of_none h.1]
      exact ih h.2
  · intro h
    cases hs : search SourcedClass.names (outermost ts) name v ks with
    | none => rfl
    | some c =>
      have hc := mem_searchEach_of_search hs
      rw [h] at hc
      cases hc

theorem find?_filterMap_eq {α β : Type} (f : α → Option β) (p : β → Bool) (as : List α) :
    (as.filterMap f).find? p = as.findSome? fun a => (f a).filter p := by
  induction as with
  | nil => rfl
  | cons a as ih =>
    rw [List.findSome?_cons, ← ih]
    cases hf : f a with
    | none => rw [List.filterMap_cons_none hf, Option.filter_none]
    | some b =>
      rw [List.filterMap_cons_some hf, List.find?_cons, Option.filter_some]
      cases p b <;> rfl

theorem filter_search_cons (cs : List SourcedClass) :
    (search SourcedClass.names cs name v (k :: ks)).filter (fun c => c.names.nameOf? v k == some name) =
      searchKind SourcedClass.names cs name v k := by
  rw [search_cons]
  cases hk : searchKind SourcedClass.names cs name v k with
  | some c =>
    have hc : (c.names.nameOf? v k == some name) = true := by
      have hf := List.find?_some hk
      exact hf
    rw [Option.some_or, Option.filter_some, if_pos hc]
  | none =>
    -- No class has the name in this way, so what a later kind finds has not either.
    rw [Option.none_or, Option.filter_eq_none_iff]
    intro c hc
    exact List.find?_eq_none.mp hk c (search_hit hc).1

theorem find?_searchEach :
    (searchEach ts name v (k :: ks)).find? (fun c => c.names.nameOf? v k == some name) =
      searchKind SourcedClass.names (outermost ts) name v k := by
  rw [searchEach, find?_filterMap_eq, searchKind_sources]
  simp only [filter_search_cons]

theorem search_pair (ts : List Mapping) (name : String) (v : Version) (k l : NameKind) :
    search SourcedClass.names (outermost ts) name v [k, l] =
      ((searchEach ts name v [k, l]).find? fun c => c.names.nameOf? v k == some name).or
        (searchEach ts name v [k, l]).head? := by
  rw [search_cons, find?_searchEach]
  cases hk : searchKind SourcedClass.names (outermost ts) name v k with
  | some c => rw [Option.some_or, Option.some_or]
  | none => rw [Option.none_or, Option.none_or, search_single, searchEach_cons_of_none hk]

end searches

/-- The entries are the answers that sources give by themselves, with the numbers of these sources, which
increase. -/
structure ListsSources {α : Type} (ts : List Mapping) (single : Mapping → Option α)
    (entries : List (α × Nat)) : Prop where
  increasing : (entries.map Prod.snd).Pairwise (· < ·)
  mem_iff : ∀ a n, (a, n) ∈ entries ↔ ∃ t, ts[n]? = some t ∧ single t = some a

theorem listsSources_searchEach {α : Type} (ts : List Mapping) (name : String) (v : Version)
    (ks : List NameKind) (f : SourcedClass → α) (hf : ∀ c n, f (c.raise n) = f c) :
    ListsSources ts (fun t => (search SourcedClass.names (outermost [t]) name v ks).map f)
      ((searchEach ts name v ks).map fun c => (f c, c.source)) where
  increasing := by
    rw [List.map_map, List.pairwise_map]
    exact increasing_searchEach
  mem_iff := by
    intro a n
    have hsearch : ∀ t : Mapping, (search SourcedClass.names (outermost [t]) name v ks).map f = some a ↔
        ∃ c, search SourcedClass.names (t.sourced n) name v ks = some c ∧ f c = a := by
      intro t
      simp only [search_sourced t n, Option.map_eq_some_iff, exists_exists_and_eq_and, hf]
    simp only [hsearch, List.mem_map, mem_searchEach, Prod.mk.injEq]
    constructor
    · rintro ⟨c, ⟨t, ht, hc⟩, rfl, rfl⟩
      exact ⟨t, ht, c, hc, rfl⟩
    · rintro ⟨t, ht, c, hc, rfl⟩
      obtain rfl := source_of_search hc
      exact ⟨c, ⟨t, ht, hc⟩, rfl, rfl⟩

/-- The entry is the own name of a class of its source whose live alias for the version is this name. -/
def knownByAlias (ts : List Mapping) (name : String) (v : Version) (e : String × Nat) : Bool :=
  ts[e.2]?.any fun t => t.classes.any fun c => c.name == e.1 && c.nameIn? v == some name

theorem knownByAlias_eq {ts : List Mapping} {name : String} {v : Version} {c : SourcedClass}
    (h : c ∈ searchEach ts name v [.versioned, .default]) :
    knownByAlias ts name v (c.mapping.name, c.source) =
      (c.names.nameOf? v .versioned == some name) := by
  obtain ⟨t, ht, hc⟩ := mem_searchEach.mp h
  have hmem := (mem_sourced.mp (search_hit hc).1).2
  rw [Bool.eq_iff_iff, knownByAlias, ht]
  simp only [Option.any_some, List.any_eq_true, Bool.and_eq_true, beq_iff_eq]
  constructor
  · rintro ⟨m, hm, -, hv⟩
    rw [← map_mapping_sourced t c.source, List.mem_map] at hm
    obtain ⟨d, hd, rfl⟩ := hm
    -- As `d` has the alias, the search for aliases in the source comes to a class.
    by_contra hne
    have hnone : (search SourcedClass.names (t.sourced c.source) name v [.versioned, .default]).filter
        (fun c => c.names.nameOf? v .versioned == some name) =
          searchKind SourcedClass.names (t.sourced c.source) name v .versioned := filter_search_cons _
    rw [hc, Option.filter_some, if_neg (by simpa using hne)] at hnone
    exact List.find?_eq_none.mp hnone.symm d hd (beq_iff_eq.mpr hv)
  · intro hv
    exact ⟨c.mapping, List.mem_of_getElem? hmem, rfl, hv⟩

theorem find?_knownByAlias (ts : List Mapping) (name : String) (v : Version) :
    ((searchEach ts name v [.versioned, .default]).map fun c => (c.mapping.name, c.source)).find?
        (knownByAlias ts name v) =
      ((searchEach ts name v [.versioned, .default]).find?
        fun c => c.names.nameOf? v .versioned == some name).map fun c => (c.mapping.name, c.source) := by
  rw [List.find?_map]
  congr 1
  exact List.find?_congr fun c hc => knownByAlias_eq hc

namespace Index

variable (ts : List Mapping) (name : String) (v : Version)

theorem deobfuscateAll_searchEach : (ofSources ts).deobfuscateAll name v =
    (searchEach ts name v [.versioned, .default]).map fun c => (c.mapping.name, c.source) := by
  rw [deobfuscateAll_ofSources, searchEach, List.map_filterMap]

theorem obfuscateAll_searchEach : (ofSources ts).obfuscateAll name v =
    (searchEach ts name v [.own]).map fun c => (c.mapping.resolve v, c.source) := by
  rw [obfuscateAll_ofSources, searchEach, List.map_filterMap]

theorem findAllClasses_searchEach : (ofSources ts).findAllClasses name v =
    searchEach ts name v [.own, .default, .versioned] := findAllClasses_ofSources ts name v

/-- The lists of all answers hold what the sources answer by themselves, and the single answers over all
sources can be told from them. -/
theorem answers_by_source :
    ListsSources ts (fun t => (ofSources [t]).deobfuscate name v) ((ofSources ts).deobfuscateAll name v) ∧
    ListsSources ts (fun t => (ofSources [t]).obfuscate name v) ((ofSources ts).obfuscateAll name v) ∧
    ListsSources ts (fun t => ((ofSources [t]).findClass name v).map fun c => (c.place, c.mapping))
      (((ofSources ts).findAllClasses name v).map fun c => ((c.place, c.mapping), c.source)) ∧
    (ofSources ts).obfuscateWithSource name v = ((ofSources ts).obfuscateAll name v).head? ∧
    (ofSources ts).deobfuscateWithSource name v =
      (((ofSources ts).deobfuscateAll name v).find? (knownByAlias ts name v) <|>
        ((ofSources ts).deobfuscateAll name v).head?) ∧
    (∀ c ∈ (ofSources ts).findClass name v, c ∈ (ofSources ts).findAllClasses name v) ∧
    ((ofSources ts).findClass name v = none ↔ (ofSources ts).findAllClasses name v = []) := by
  simp only [(scans_ofSources _).deobfuscate, (scans_ofSources _).obfuscate, findClass_ofSources,
    obfuscateWithSource_ofSources, deobfuscateWithSource_ofSources, deobfuscateAll_searchEach,
    obfuscateAll_searchEach, findAllClasses_searchEach]
  refine ⟨?_, ?_, ?_, ?_, ?_, ?_, search_eq_none_iff⟩
  · exact listsSources_searchEach ts name v _ (·.mapping.name) fun _ _ => rfl
  · exact listsSources_searchEach ts name v _ (·.mapping.resolve v) fun _ _ => rfl
  · exact listsSources_searchEach ts name v _ (fun c => (c.place, c.mapping)) fun _ _ => rfl
  · rw [search_single, List.head?_map]
  · rw [find?_knownByAlias, List.head?_map, search_pair, Option.orElse_eq_orElse, Option.orElse_eq_or,
      Option.map_or]
  · exact fun c hc => mem_searchEach_of_search hc

end Index

end ObfuscationMap
