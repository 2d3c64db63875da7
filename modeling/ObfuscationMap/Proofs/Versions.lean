import ObfuscationMap.Proofs.Versions.Answers

/-!
What a version sees. Only its live aliases matter: without all others a mapping looks alike at this version, so
that they may be dropped, and where a version has none, it is answered like no version.
-/

namespace ObfuscationMap

def Renaming.restrict (v : Version) (r : Renaming) : Renaming :=
  { r with aliases := r.aliases.filter fun a => !a.removed && some a.version == v }

def FieldMapping.restrict (v : Version) (f : FieldMapping) : FieldMapping :=
  { f with toRenaming := f.toRenaming.restrict v }

def MethodMapping.restrict (v : Version) (m : MethodMapping) : MethodMapping :=
  { m with toRenaming := m.toRenaming.restrict v }

def ClassMapping.restrict (v : Version) (c : ClassMapping) : ClassMapping :=
  { c with
    toRenaming := c.toRenaming.restrict v
    methods := c.methods.map (·.restrict v)
    fields := c.fields.map (·.restrict v) }

def Mapping.restrict (v : Version) (t : Mapping) : Mapping :=
  { t with classes := t.classes.map (·.restrict v) }

theorem Renaming.alike_restrict (v : Version) (r : Renaming) : (r.restrict v).Alike v v r where
  name := rfl
  obfuscated := rfl
  nameIn? := by
    cases v with
    | none => rfl
    | some v =>
      -- What is looked for is a live alias of the version, and those are kept.
      have hkept : ∀ a : Alias, decide ((!a.removed && some a.version == some v) = true ∧
          (a.version == v && !a.removed) = true) = (a.version == v && !a.removed) := by
        intro a
        by_cases hv : a.version = v <;> cases a.removed <;> simp [hv]
      rw [nameIn?, nameIn?, restrict, List.find?_filter]
      simp only [hkept]

theorem ClassMapping.alike_restrict (v : Version) (c : ClassMapping) : (c.restrict v).Alike v v c where
  names := c.toRenaming.alike_restrict v
  methods := List.forall₂_map_left_iff.mpr
    (List.forall₂_same.mpr fun m _ => ⟨m.toRenaming.alike_restrict v, rfl⟩)
  fields := List.forall₂_map_left_iff.mpr
    (List.forall₂_same.mpr fun f _ => f.toRenaming.alike_restrict v)

theorem Mapping.alike_restrict (v : Version) (t : Mapping) : (t.restrict v).Alike v v t where
  package := rfl
  classes := List.forall₂_map_left_iff.mpr (List.forall₂_same.mpr fun c _ => c.alike_restrict v)

section unnamed

variable {v : String}

theorem Renaming.nameIn?_eq_none {r : Renaming} (h : ∀ a ∈ r.liveAliases, a.version ≠ v) :
    r.nameIn? (some v) = none := by
  rw [nameIn?_some, List.find?_eq_none.mpr]
  · rfl
  · intro a ha
    rw [beq_iff_eq]
    exact h a ha

theorem Renaming.alike_none {r : Renaming} (h : ∀ a ∈ r.liveAliases, a.version ≠ v) :
    r.Alike (some v) none r :=
  ⟨rfl, rfl, nameIn?_eq_none h⟩

theorem ClassMapping.alike_none {c : ClassMapping} (h : ∀ a ∈ c.allLiveAliases, a.version ≠ v) :
    c.Alike (some v) none c := by
  rw [allLiveAliases, List.forall_mem_append, List.forall_mem_append] at h
  obtain ⟨⟨hc, hm⟩, hf⟩ := h
  refine ⟨Renaming.alike_none hc, List.forall₂_same.mpr ?_, List.forall₂_same.mpr ?_⟩
  · intro m hmem
    exact ⟨Renaming.alike_none fun a ha => hm a (List.mem_flatMap.mpr ⟨m, hmem, ha⟩), rfl⟩
  · intro f hmem
    exact Renaming.alike_none fun a ha => hf a (List.mem_flatMap.mpr ⟨f, hmem, ha⟩)

theorem findBest_none {ts : List Mapping}
    (h : ∀ c ∈ outermost ts, c.mapping.nameIn? (some v) = none) (name : String) :
    (Index.ofSources ts).findBest name (some v) = (Index.ofSources ts).findBest name none := by
  have hexact : (outermost ts).find? (Index.calledExactly name (some v)) =
      searchKind SourcedClass.names (outermost ts) name none .own := by
    refine List.find?_congr fun c hc => ?_
    rw [Index.calledExactly, h c hc]
    exact Bool.or_false _
  -- The classes called exactly so are those of that own name, which are looked for next in any case.
  rw [Index.findBest, Index.findBest, Index.classes_ofSources, Index.names_ofSources,
    NameTable.byName_ofClasses _ name none]
  simp only [Option.isSome_some, Option.isSome_none, ↓reduceIte, hexact, Bool.false_eq_true]
  cases searchKind SourcedClass.names (outermost ts) name none .own <;> rfl

end unnamed

/-- Dropping all but the live aliases of a version changes no answer there, and a version without live
aliases is answered like no version. The places that methods and fields are told by are those of the methods and
fields that are found. -/
theorem answers_restrict (ts : List Mapping) :
    (∀ v, SameAnswers (ts.map (·.restrict v)) v ts v) ∧
    (∀ v, (∀ t ∈ ts, ∀ c ∈ t.classes, ∀ a ∈ c.allLiveAliases, a.version ≠ v) →
      SameAnswers ts (some v) ts none ∧
        ∀ name, (Index.ofSources ts).findBest name (some v) = (Index.ofSources ts).findBest name none) ∧
    ∀ us className name v,
      (Index.ofSources us).findMethod className name v =
        ((Index.ofSources us).methodPlace className name v).bind (memberAt? us (·.methods)) ∧
      (Index.ofSources us).findField className name v =
        ((Index.ofSources us).fieldPlace className name v).bind (memberAt? us (·.fields)) := by
  refine ⟨?_, ?_, ?_⟩
  · intro v
    refine sameAnswers_of_alike ?_
    rw [List.forall₂_map_left_iff, List.forall₂_same]
    exact fun t _ => t.alike_restrict v
  · intro v h
    constructor
    · refine sameAnswers_of_alike (List.forall₂_same.mpr fun t ht => ⟨rfl, List.forall₂_same.mpr ?_⟩)
      exact fun c hc => ClassMapping.alike_none (h t ht c hc)
    · refine findBest_none fun c hc => ?_
      obtain ⟨t, ht, hm⟩ := exists_of_mem_outermost hc
      exact (ClassMapping.alike_none (h t ht _ hm)).names.nameIn?
  · intro us className name v
    exact ⟨bind_placeIn us _ _ className name v, bind_placeIn us _ _ className name v⟩

theorem answers_restrict_gone :
    let m : MethodMapping := ⟨⟨"f", "g", [.gone "w", .live "v" "h" .empty]⟩, [], none, .empty⟩
    let ts : List Mapping := [⟨"", .empty, [⟨⟨"A", "a", [.gone "w"]⟩, .empty, [m], [], []⟩]⟩]
    (∀ t ∈ ts, ∀ c ∈ t.classes, ∀ a ∈ c.allLiveAliases, a.version ≠ "w") ∧
      SameAnswers ts (some "w") ts none ∧
        ∀ name, (Index.ofSources ts).findBest name (some "w") = (Index.ofSources ts).findBest name none := by
  intro m ts
  have h : ∀ t ∈ ts, ∀ c ∈ t.classes, ∀ a ∈ c.allLiveAliases, a.version ≠ "w" := by decide
  exact ⟨h, (answers_restrict ts).2.1 "w" h⟩

end ObfuscationMap
