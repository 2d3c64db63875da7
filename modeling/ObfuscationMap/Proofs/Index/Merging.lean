import ObfuscationMap.Proofs.Index
import ObfuscationMap.Session
import Mathlib.Data.List.Induction

/-!
Merged indexes. Merging puts the sources of one index behind those of another, so the classes of the second
one follow the classes of the first one and their sources have higher numbers. What is asked of all sources
is answered by both in this order. What is asked for one class is answered by the first one that knows it,
kind of name by kind of name.
-/

namespace ObfuscationMap

/-- The class as it is known behind `n` other sources. -/
def SourcedClass.raise (n : Nat) (c : SourcedClass) : SourcedClass := { c with source := c.source + n }

def raiseSource (n : Nat) (a : String × Nat) : String × Nat := (a.1, a.2 + n)

theorem sourced_add (t : Mapping) (k n : Nat) : t.sourced (k + n) = (t.sourced k).map (·.raise n) := by
  rw [Mapping.sourced, Mapping.sourced, List.map_map]
  rfl

theorem zipIdx_add {α : Type} (as : List α) (n : Nat) :
    as.zipIdx (0 + n) = as.zipIdx.map fun a => (a.1, a.2 + n) := by
  rw [List.zipIdx_eq_map_add]
  refine List.map_congr_left fun a _ => ?_
  rw [Nat.zero_add, Nat.add_comm]

theorem outermost_append (ts us : List Mapping) :
    outermost (ts ++ us) = outermost ts ++ (outermost us).map (·.raise ts.length) := by
  rw [outermost, List.zipIdx_append, List.flatMap_append, zipIdx_add, List.flatMap_map]
  simp only [sourced_add, outermost, List.map_flatMap]

theorem search_raise (cs : List SourcedClass) (n : Nat) (name : String) (v : Version)
    (ks : List NameKind) : search SourcedClass.names (cs.map (·.raise n)) name v ks =
      (search SourcedClass.names cs name v ks).map (·.raise n) :=
  search_map _ _ _ ks

theorem searchKind_outermost (ts us : List Mapping) (name : String) (v : Version) (k : NameKind) :
    searchKind SourcedClass.names (outermost (ts ++ us)) name v k =
      (searchKind SourcedClass.names (outermost ts) name v k).or
        ((searchKind SourcedClass.names (outermost us) name v k).map (·.raise ts.length)) := by
  rw [outermost_append, searchKind_append, searchKind_map]
  rfl

theorem filterMap_zipIdx_append {β : Type} (ts us : List Mapping) (f : Mapping × Nat → Option β)
    (g : β → β) (h : ∀ t k, f (t, k + ts.length) = (f (t, k)).map g) :
    (ts ++ us).zipIdx.filterMap f = ts.zipIdx.filterMap f ++ (us.zipIdx.filterMap f).map g := by
  rw [List.zipIdx_append, List.filterMap_append, zipIdx_add, List.filterMap_map, List.map_filterMap]
  congr 2
  funext t
  exact h t.1 t.2

theorem filterMap_search_append {β : Type} (ts us : List Mapping) (name : String) (v : Version)
    (ks : List NameKind) (f : SourcedClass → β) (g : β → β)
    (h : ∀ c : SourcedClass, f (c.raise ts.length) = g (f c)) :
    ((ts ++ us).zipIdx.filterMap fun t =>
        (search SourcedClass.names (t.1.sourced t.2) name v ks).map f) =
      (ts.zipIdx.filterMap fun t => (search SourcedClass.names (t.1.sourced t.2) name v ks).map f) ++
        (us.zipIdx.filterMap fun t =>
          (search SourcedClass.names (t.1.sourced t.2) name v ks).map f).map g := by
  refine filterMap_zipIdx_append ts us _ g fun t k => ?_
  rw [sourced_add, search_raise, Option.map_map, Option.map_map]
  congr 1
  funext c
  exact h c

def addVersions (vs : List String) (as : List Alias) : List String :=
  as.foldl (fun vs a => if a.version ∈ vs then vs else vs ++ [a.version]) vs

theorem addVersions_concat (vs : List String) (as : List Alias) (a : Alias) :
    addVersions vs (as ++ [a]) =
      if a.version ∈ addVersions vs as then addVersions vs as
      else addVersions vs as ++ [a.version] := by
  rw [addVersions, List.foldl_append]
  rfl

theorem addVersions_eq (vs : List String) (as : List Alias) :
    addVersions vs as = vs ++ (addVersions [] as).filter (· ∉ vs) := by
  induction as using List.reverseRecOn with
  | nil => simp [addVersions]
  | append_singleton as a ih =>
    rw [addVersions_concat, addVersions_concat, ih]
    by_cases hv : a.version ∈ vs
    · by_cases ha : a.version ∈ addVersions [] as
      · simp [hv, ha]
      · simp [hv, ha]
    · by_cases ha : a.version ∈ addVersions [] as
      · simp [hv, ha]
      · simp [hv, ha]

namespace Index

def deobfuscateByAlias (i : Index) (name : String) (v : Version) : Option (String × Nat) :=
  (findByAlias i.classes name v).map fun c => (c.mapping.name, c.source)

def deobfuscateByDefault (i : Index) (name : String) : Option (String × Nat) :=
  i.names.byObfuscated[name]?.map fun c => (c.mapping.name, c.source)

theorem deobfuscateWithSource_eq (i : Index) (name : String) (v : Version) :
    i.deobfuscateWithSource name v =
      (i.deobfuscateByAlias name v <|> i.deobfuscateByDefault name) := by
  simp only [deobfuscateWithSource, findObfuscated, deobfuscateByAlias, deobfuscateByDefault,
    Option.orElse_eq_orElse, Option.orElse_eq_or, Option.map_or]

/-- How an index answers that has the sources of `a` and behind them those of `b`. -/
structure Joins (m a b : Index) : Prop where
  deobfuscateAll : ∀ name v, m.deobfuscateAll name v =
    a.deobfuscateAll name v ++ (b.deobfuscateAll name v).map (raiseSource a.sources.length)
  obfuscateAll : ∀ name v, m.obfuscateAll name v =
    a.obfuscateAll name v ++ (b.obfuscateAll name v).map (raiseSource a.sources.length)
  findAllClasses : ∀ name v, m.findAllClasses name v =
    a.findAllClasses name v ++ (b.findAllClasses name v).map (·.raise a.sources.length)
  obfuscateWithSource : ∀ name v, m.obfuscateWithSource name v =
    (a.obfuscateWithSource name v <|>
      (b.obfuscateWithSource name v).map (raiseSource a.sources.length))
  deobfuscateWithSource : ∀ name v, m.deobfuscateWithSource name v =
    (a.deobfuscateByAlias name v <|>
      (b.deobfuscateByAlias name v).map (raiseSource a.sources.length) <|>
      a.deobfuscateByDefault name <|>
      (b.deobfuscateByDefault name).map (raiseSource a.sources.length))
  findByVersion : ∀ version, m.findByVersion version = a.findByVersion version ++ b.findByVersion version
  allVersions : m.allVersions = a.allVersions ++ b.allVersions.filter (· ∉ a.allVersions)

variable (ts us : List Mapping)

theorem deobfuscateByAlias_ofSources (name : String) (v : Version) :
    (ofSources ts).deobfuscateByAlias name v =
      (searchKind SourcedClass.names (outermost ts) name v .versioned).map
        fun c => (c.mapping.name, c.source) := by
  rw [deobfuscateByAlias, classes_ofSources, findByAlias_eq]

theorem deobfuscateByDefault_ofSources (name : String) :
    (ofSources ts).deobfuscateByDefault name =
      (searchKind SourcedClass.names (outermost ts) name none .default).map
        fun c => (c.mapping.name, c.source) := by
  rw [deobfuscateByDefault, names_ofSources, NameTable.byObfuscated_ofClasses _ name none]

theorem aliases_ofSources :
    (ofSources ts).aliases = (ts.flatMap (·.classes)).flatMap (·.allLiveAliases) := by
  rw [aliases, classes_ofSources, ← map_mapping_outermost, List.flatMap_map]

theorem aliases_append : (ofSources (ts ++ us)).aliases = (ofSources ts).aliases ++ (ofSources us).aliases := by
  simp only [aliases_ofSources, List.flatMap_append]

theorem joins_append : (ofSources (ts ++ us)).Joins (ofSources ts) (ofSources us) where
  deobfuscateAll := by
    intro name v
    simp only [deobfuscateAll_ofSources]
    exact filterMap_search_append ts us name v _ _ (raiseSource ts.length) fun _ => rfl
  obfuscateAll := by
    intro name v
    simp only [obfuscateAll_ofSources]
    exact filterMap_search_append ts us name v _ _ (raiseSource ts.length) fun _ => rfl
  findAllClasses := by
    intro name v
    simp only [findAllClasses_ofSources]
    refine filterMap_zipIdx_append ts us _ _ fun t k => ?_
    rw [sourced_add, search_raise]
    rfl
  obfuscateWithSource := by
    intro name v
    simp only [obfuscateWithSource_ofSources, search_cons, search_nil, Option.or_none, searchKind_outermost,
      Option.map_or, Option.map_map, Option.orElse_eq_orElse, Option.orElse_eq_or]
    rfl
  deobfuscateWithSource := by
    intro name v
    simp only [deobfuscateWithSource_eq, deobfuscateByAlias_ofSources, deobfuscateByDefault_ofSources,
      searchKind_outermost, Option.map_or, Option.map_map, Option.orElse_eq_orElse, Option.orElse_eq_or,
      Option.or_assoc]
    rfl
  findByVersion := by
    intro version
    simp only [findByVersion, aliases_append, List.filter_append]
  allVersions := by
    change addVersions [] _ = addVersions [] _ ++ (addVersions [] _).filter _
    rw [aliases_append, addVersions, List.foldl_append]
    exact addVersions_eq _ _

theorem merge_pair : merge [ofSources ts, ofSources us] = ofSources (ts ++ us) := by
  rw [merge, List.flatMap_cons, List.flatMap_cons, List.flatMap_nil, List.append_nil]
  rfl

theorem merge_merge (is js ks : List Index) : merge (is ++ merge js :: ks) = merge (is ++ js ++ ks) := by
  simp only [merge, List.flatMap_append, List.flatMap_cons, List.append_assoc]
  rfl

theorem merge_map_merge (iss : List (List Index)) : merge (iss.map merge) = merge iss.flatten := by
  rw [merge, merge, List.flatMap_map, List.flatten_eq_flatMap, List.flatMap_assoc]
  rfl

theorem merge_sessions (ss : List Session) : Session.merge ss = ⟨merge (ss.map (·.index)), none⟩ := by
  rw [Session.merge, merge, List.flatMap_map]

/-- Merging two indexes joins their answers. Merging may be done in steps, and with nothing it changes
nothing. Merged sessions ask the merged index, with no version at first. -/
theorem merge_answers :
    (merge [ofSources ts, ofSources us]).Joins (ofSources ts) (ofSources us) ∧
    (∀ is js ks : List Index, merge (is ++ merge js :: ks) = merge (is ++ js ++ ks)) ∧
    (∀ iss : List (List Index), merge (iss.map merge) = merge iss.flatten) ∧
    merge [merge [], ofSources ts] = ofSources ts ∧ merge [ofSources ts, merge []] = ofSources ts ∧
    ∀ ss : List Session, Session.merge ss = ⟨merge (ss.map (·.index)), none⟩ := by
  have hempty : merge [] = ofSources [] := rfl
  refine ⟨?_, merge_merge, merge_map_merge, ?_, ?_, merge_sessions⟩
  · rw [merge_pair]
    exact joins_append ts us
  · rw [hempty, merge_pair, List.nil_append]
  · rw [hempty, merge_pair, List.append_nil]

end Index

end ObfuscationMap
