import ObfuscationMap.Proofs.Index.Merging
import ObfuscationMap.Proofs.Validation.Report

/-!
The versions of an index and the aliases of each. Every live alias of an outermost class, or of a method or field
of one, is found under its version and under no other, in the order in which the sources have them. The versions are
listed in the order of their first aliases, and they are those in which something has a name of its own.
-/

namespace ObfuscationMap

def ClassMapping.renamings (c : ClassMapping) : List Renaming :=
  c.toRenaming :: (c.methods.map (·.toRenaming) ++ c.fields.map (·.toRenaming))

def outermostRenamings (ts : List Mapping) : List Renaming := ts.flatMap fun t => t.classes.flatMap (·.renamings)

def Mapping.withoutInner (t : Mapping) : Mapping := { t with classes := t.classes.map (·.withoutInner) }

theorem ClassMapping.allLiveAliases_eq (c : ClassMapping) :
    c.allLiveAliases = c.renamings.flatMap (·.liveAliases) := by
  rw [allLiveAliases, renamings, List.flatMap_cons, List.flatMap_append, List.flatMap_map, List.flatMap_map,
    List.append_assoc]

theorem outermostRenamings_withoutInner (ts : List Mapping) :
    outermostRenamings (ts.map (·.withoutInner)) = outermostRenamings ts := by
  simp only [outermostRenamings, List.flatMap_map, Mapping.withoutInner]
  rfl

theorem Renaming.nameIn?_isSome_iff {r : Renaming} {v : String} :
    (r.nameIn? (some v)).isSome ↔ ∃ a ∈ r.liveAliases, a.version = v := by
  rw [nameIn?_some, Option.isSome_map, List.find?_isSome]
  simp only [beq_iff_eq]

theorem Renaming.mem_liveAliases {r : Renaming} {a : Alias} :
    a ∈ r.liveAliases ↔ a ∈ r.aliases ∧ a.removed = false := by
  rw [liveAliases, List.mem_filter, Bool.not_eq_true']

section addVersions

variable (as : List Alias)

theorem mem_addVersions {v : String} : v ∈ addVersions [] as ↔ v ∈ as.map (·.version) := by
  induction as using List.reverseRecOn with
  | nil => rfl
  | append_singleton as a ih =>
    rw [addVersions_concat, List.map_append, List.mem_append, ← ih, List.map_singleton, List.mem_singleton]
    split
    · next h =>
      refine ⟨.inl, ?_⟩
      rintro (hv | rfl)
      · exact hv
      · exact h
    · rw [List.mem_append, List.mem_singleton]

theorem nodup_addVersions : (addVersions [] as).Nodup := by
  induction as using List.reverseRecOn with
  | nil => exact List.nodup_nil
  | append_singleton as a ih =>
    rw [addVersions_concat]
    split
    · exact ih
    · next h =>
      rw [← List.concat_eq_append]
      exact ih.concat h

theorem pairwise_addVersions :
    (addVersions [] as).Pairwise fun v w => (as.map (·.version)).idxOf v < (as.map (·.version)).idxOf w := by
  induction as using List.reverseRecOn with
  | nil => exact .nil
  | append_singleton as a ih =>
    -- A version that is listed already keeps its place.
    have hkept : ∀ v ∈ addVersions [] as,
        ((as ++ [a]).map (·.version)).idxOf v = (as.map (·.version)).idxOf v := by
      intro v hv
      rw [List.map_append, List.idxOf_append_of_mem ((mem_addVersions as).mp hv)]
    have hlisted : (addVersions [] as).Pairwise fun v w =>
        ((as ++ [a]).map (·.version)).idxOf v < ((as ++ [a]).map (·.version)).idxOf w := by
      refine ih.imp_of_mem fun {v w} hv hw h => ?_
      rwa [hkept v hv, hkept w hw]
    rw [addVersions_concat]
    split
    · exact hlisted
    · next hnew =>
      refine List.pairwise_append.mpr ⟨hlisted, List.pairwise_singleton .., fun v hv w hw => ?_⟩
      obtain rfl := List.mem_singleton.mp hw
      rw [hkept v hv, List.map_append, List.idxOf_append_of_notMem fun h => hnew ((mem_addVersions as).mpr h)]
      have hlt := List.idxOf_lt_length_of_mem ((mem_addVersions as).mp hv)
      omega

end addVersions

theorem perm_flatMap_filter {α : Type} {key : α → String} {ks : List String} (hn : ks.Nodup) {as : List α}
    (h : ∀ a ∈ as, key a ∈ ks) : (ks.flatMap fun k => as.filter fun a => key a == k).Perm as := by
  induction ks generalizing as with
  | nil =>
    rw [List.eq_nil_iff_forall_not_mem.mpr fun a ha => List.not_mem_nil (h a ha)]
    rfl
  | cons k ks ih =>
    rw [List.nodup_cons] at hn
    have hothers : ∀ a ∈ as.filter (fun a => !(key a == k)), key a ∈ ks := by
      intro a ha
      rw [List.mem_filter, Bool.not_eq_true', beq_eq_false_iff_ne] at ha
      exact (List.mem_cons.mp (h a ha.1)).resolve_left ha.2
    -- As the keys differ, nothing of the other parts has the first key.
    have hparts : (ks.flatMap fun k' => (as.filter fun a => !(key a == k)).filter fun a => key a == k') =
        ks.flatMap fun k' => as.filter fun a => key a == k' := by
      refine List.flatMap_congr fun k' hk' => ?_
      rw [List.filter_filter]
      refine List.filter_congr fun a _ => ?_
      by_cases hkey : key a = k'
      · have hne : key a ≠ k := fun he => hn.1 (he ▸ hkey ▸ hk')
        simp [hkey, hkey ▸ hne]
      · simp [hkey]
    rw [List.flatMap_cons, ← hparts]
    exact ((ih hn.2 hothers).append_left _).trans (List.filter_append_perm _ as)

namespace Index

/-- The versions and what is found under each, where the index has the aliases `as`. -/
structure Partitions (i : Index) (as : List Alias) : Prop where
  distinct : i.allVersions.Nodup
  listed : ∀ v, v ∈ i.allVersions ↔ i.findByVersion v ≠ []
  inOrder : i.allVersions.Pairwise fun v w => (as.map (·.version)).idxOf v < (as.map (·.version)).idxOf w
  found : ∀ v, i.findByVersion v = as.filter (·.version == v)
  once : ∀ a ∈ as, ∃! v, v ∈ i.allVersions ∧ a ∈ i.findByVersion v
  all : (i.allVersions.flatMap i.findByVersion).Perm as

theorem mem_findByVersion {i : Index} {v : String} {a : Alias} :
    a ∈ i.findByVersion v ↔ a ∈ i.aliases ∧ a.version = v := by
  rw [findByVersion, List.mem_filter, beq_iff_eq]

theorem mem_allVersions {i : Index} {v : String} : v ∈ i.allVersions ↔ ∃ a ∈ i.aliases, a.version = v :=
  (mem_addVersions i.aliases).trans List.mem_map

theorem partitions_aliases (i : Index) : i.Partitions i.aliases where
  distinct := nodup_addVersions i.aliases
  listed := by
    intro v
    rw [mem_allVersions, findByVersion, Ne, List.filter_eq_nil_iff]
    simp only [beq_iff_eq, not_forall, not_not, exists_prop]
  inOrder := pairwise_addVersions i.aliases
  found := fun _ => rfl
  once := by
    intro a ha
    refine ⟨a.version, ⟨mem_allVersions.mpr ⟨a, ha, rfl⟩, mem_findByVersion.mpr ⟨ha, rfl⟩⟩, ?_⟩
    rintro v ⟨-, hv⟩
    exact (mem_findByVersion.mp hv).2.symm
  all := perm_flatMap_filter (nodup_addVersions i.aliases) fun a ha => mem_allVersions.mpr ⟨a, ha, rfl⟩

variable (ts : List Mapping)

theorem aliases_eq : (ofSources ts).aliases = (outermostRenamings ts).flatMap (·.liveAliases) := by
  simp only [aliases_ofSources, outermostRenamings, List.flatMap_assoc, ClassMapping.allLiveAliases_eq]

theorem aliases_withoutInner : (ofSources (ts.map (·.withoutInner))).aliases = (ofSources ts).aliases := by
  rw [aliases_eq, aliases_eq, outermostRenamings_withoutInner]

theorem mem_aliases {a : Alias} :
    a ∈ (ofSources ts).aliases ↔ a.removed = false ∧ ∃ r ∈ outermostRenamings ts, a ∈ r.aliases := by
  rw [aliases_eq, List.mem_flatMap]
  simp only [Renaming.mem_liveAliases]
  grind

/-- The versions divide up the live aliases of the outermost classes and their members. A version is listed
if and only if one of these has a name of its own in it. Inner classes do not matter. -/
theorem allVersions_partition :
    (ofSources ts).Partitions ((outermostRenamings ts).flatMap (·.liveAliases)) ∧
    (∀ v a, a ∈ (ofSources ts).findByVersion v ↔
      a.version = v ∧ a.removed = false ∧ ∃ r ∈ outermostRenamings ts, a ∈ r.aliases) ∧
    (∀ v, v ∈ (ofSources ts).allVersions ↔ ∃ r ∈ outermostRenamings ts, (r.nameIn? (some v)).isSome) ∧
    (ofSources (ts.map (·.withoutInner))).allVersions = (ofSources ts).allVersions ∧
    ∀ v, (ofSources (ts.map (·.withoutInner))).findByVersion v = (ofSources ts).findByVersion v := by
  refine ⟨?_, ?_, ?_, ?_, ?_⟩
  · rw [← aliases_eq]
    exact partitions_aliases _
  · intro v a
    rw [mem_findByVersion, mem_aliases, and_comm]
  · intro v
    rw [mem_allVersions, aliases_eq]
    simp only [List.mem_flatMap, Renaming.nameIn?_isSome_iff]
    grind
  · rw [allVersions, allVersions, aliases_withoutInner]
  · intro v
    rw [findByVersion, findByVersion, aliases_withoutInner]

end Index

end ObfuscationMap
