import ObfuscationMap.Proofs.Index
import ObfuscationMap.Proofs.Validation

/-!
From the own names of classes to their obfuscated names at a version, and back. In a mapping without
problems the way back leads to where one started, for all classes, exactly if no two classes have one name
at the version. The other way round, a name that leads to a class is the name of that class at the version,
unless the class has another name there and was found by its default name.
-/

namespace ObfuscationMap

namespace Renaming

theorem resolve_of_nameIn {r : Renaming} {v : Version} {name : String} (h : r.nameIn? v = some name) :
    r.resolve v = name := by
  rw [resolve, h]
  rfl

theorem resolve_default {r : Renaming} {v : Version} (h : r.nameIn? v = none) :
    r.resolve v = r.obfuscated := by
  rw [resolve, h]
  rfl

theorem nameIn?_of_mem {r : Renaming} (hn : (r.aliases.map (·.version)).Nodup) {a : Alias}
    (ha : a ∈ r.liveAliases) : r.nameIn? (some a.version) = some a.name := by
  have hl : (r.liveAliases.map (·.version)).Nodup := hn.sublist (List.filter_sublist.map _)
  rw [nameIn?_some, find?_of_nodup hl ha]
  rfl

theorem exists_alias {r : Renaming} {v : Version} {name : String} (h : r.nameIn? v = some name) :
    ∃ a ∈ r.liveAliases, some a.version = v ∧ a.name = name := by
  cases v with
  | none => cases h
  | some v =>
    rw [nameIn?_some, Option.map_eq_some_iff] at h
    obtain ⟨a, ha, hn⟩ := h
    have hv : a.version = v := by simpa using List.find?_some ha
    exact ⟨a, List.mem_of_find?_eq_some ha, congrArg some hv, hn⟩

/-- Some live alias for the version is another name. -/
def NamedOtherwise (r : Renaming) (name : String) (v : Version) : Prop :=
  ∃ a ∈ r.liveAliases, some a.version = v ∧ a.name ≠ name

theorem namedOtherwise_iff {r : Renaming} (hn : (r.aliases.map (·.version)).Nodup) {name : String}
    {v : Version} : r.NamedOtherwise name v ↔ ∃ n, r.nameIn? v = some n ∧ n ≠ name := by
  constructor
  · rintro ⟨a, ha, rfl, hne⟩
    exact ⟨a.name, nameIn?_of_mem hn ha, hne⟩
  · rintro ⟨n, hv, hne⟩
    obtain ⟨a, ha, hav, rfl⟩ := exists_alias hv
    exact ⟨a, ha, hav, hne⟩

theorem resolve_of_known {r : Renaming} (hn : (r.aliases.map (·.version)).Nodup) {name : String}
    {v : Version} (h : r.nameIn? v = some name ∨ r.obfuscated = name) :
    (¬ r.NamedOtherwise name v → r.resolve v = name) ∧
      (r.NamedOtherwise name v → r.resolve v ≠ name ∧ r.obfuscated = name) := by
  rw [namedOtherwise_iff hn]
  cases hv : r.nameIn? v with
  | none =>
    have hd : r.obfuscated = name := h.resolve_left (by simp [hv])
    refine ⟨fun _ => (resolve_default hv).trans hd, ?_⟩
    rintro ⟨n, hcon, -⟩
    cases hcon
  | some n =>
    constructor
    · intro hsame
      rw [resolve_of_nameIn hv]
      by_contra hne
      exact hsame ⟨n, rfl, hne⟩
    · rintro ⟨n', he, hne⟩
      obtain rfl := Option.some.inj he
      rw [resolve_of_nameIn hv]
      refine ⟨hne, h.resolve_left ?_⟩
      rw [hv]
      exact fun hs => hne (Option.some.inj hs)

end Renaming

section search

variable {α : Type} {names : α → Renaming} {as : List α} {a : α} {name : String} {v : Version}

theorem search_resolve (hr : (as.map fun a => (names a).resolve v).Nodup)
    (ho : (as.map fun a => (names a).obfuscated).Nodup) (ha : a ∈ as) :
    search names as ((names a).resolve v) v [.versioned, .default] = some a := by
  -- Whatever has the name at the version is the thing itself.
  have same : ∀ b ∈ as, (names b).resolve v = (names a).resolve v → b = a :=
    fun b hb he => List.inj_on_of_nodup_map hr hb ha he
  rw [search_cons, search_cons, search_nil, Option.or_none]
  cases hn : (names a).nameIn? v with
  | some n =>
    have hfind : searchKind names as n v .versioned = some a := by
      refine find?_eq_some_of_unique ha (beq_iff_eq.mpr hn) ?_
      intro b hb hp
      refine same b hb ?_
      rw [Renaming.resolve_of_nameIn (beq_iff_eq.mp hp), Renaming.resolve_of_nameIn hn]
    rw [Renaming.resolve_of_nameIn hn, hfind, Option.some_or]
  | none =>
    have hnone : searchKind names as (names a).obfuscated v .versioned = none := by
      refine List.find?_eq_none.mpr ?_
      intro b hb hp
      have hb' := Renaming.resolve_of_nameIn (beq_iff_eq.mp hp)
      obtain rfl := same b hb (hb'.trans (Renaming.resolve_default hn).symm)
      cases hn.symm.trans (beq_iff_eq.mp hp)
    rw [Renaming.resolve_default hn, hnone, Option.none_or]
    exact find?_of_nodup ho ha

theorem search_resolve_iff (hn : (as.map fun a => (names a).name).Nodup)
    (ho : (as.map fun a => (names a).obfuscated).Nodup) :
    (∀ a ∈ as, (search names as ((names a).resolve v) v [.versioned, .default]).map
        (fun b => (names b).name) = some (names a).name) ↔
      (as.map fun a => (names a).resolve v).Nodup := by
  constructor
  · intro h
    rw [List.nodup_map_iff_inj_on hn.of_map]
    intro a ha b hb he
    have hab := h a ha
    rw [he, h b hb] at hab
    exact (List.inj_on_of_nodup_map hn hb ha (Option.some.inj hab)).symm
  · intro hr a ha
    rw [search_resolve hr ho ha]
    rfl

end search

namespace Index

variable {t : Mapping} {v : Version}

theorem map_outermost_single (f : Renaming → String) :
    ((outermost [t]).map fun c => f c.names) = t.classes.map fun c => f c.toRenaming := by
  have ho : (outermost [t]).map SourcedClass.mapping = t.classes := by
    rw [map_mapping_outermost, List.flatMap_singleton]
  rw [← ho, List.map_map]
  rfl

theorem obfuscate_mem {ts : List Mapping} (hn : ((outermost ts).map fun c => c.names.name).Nodup)
    {c : SourcedClass} (hc : c ∈ outermost ts) (v : Version) :
    (ofSources ts).obfuscate c.names.name v = some (c.names.resolve v) := by
  have hfind : searchKind SourcedClass.names (outermost ts) c.names.name v .own = some c :=
    find?_of_nodup hn hc
  rw [(scans_ofSources ts).obfuscate, search_cons, hfind, Option.some_or]
  rfl

theorem obfuscate_inverse (h : t.validate = []) (v : Version) :
    ((∀ n ∈ t.classes.map (·.name),
        ((ofSources [t]).obfuscate n v).bind ((ofSources [t]).deobfuscate · v) = some n) ↔
      (t.classes.map (·.resolve v)).Nodup) ∧
    ∀ o n, (ofSources [t]).deobfuscate o v = some n → ∃ c ∈ t.classes, c.name = n ∧
      (¬ c.NamedOtherwise o v → (ofSources [t]).obfuscate n v = some o) ∧
      (c.NamedOtherwise o v → (ofSources [t]).obfuscate n v ≠ some o ∧ c.obfuscated = o) := by
  have hclean := Mapping.validate_eq_nil_iff.mp h
  have hn : ((outermost [t]).map fun c => c.names.name).Nodup := by
    rw [map_outermost_single (·.name)]
    exact hclean.names
  have ho : ((outermost [t]).map fun c => c.names.obfuscated).Nodup := by
    rw [map_outermost_single (·.obfuscated)]
    exact hclean.obfuscated
  constructor
  · rw [← map_outermost_single (·.name), ← map_outermost_single (·.resolve v), List.forall_mem_map,
      ← search_resolve_iff hn ho]
    refine forall₂_congr fun c hc => ?_
    rw [obfuscate_mem hn hc, Option.bind_some, (scans_ofSources [t]).deobfuscate]
    rfl
  · intro o n hd
    rw [(scans_ofSources [t]).deobfuscate, Option.map_eq_some_iff] at hd
    obtain ⟨c, hs, rfl⟩ := hd
    obtain ⟨hc, hknown⟩ := search_hit hs
    have hknown : c.names.nameIn? v = some o ∨ c.names.obfuscated = o := by
      simpa [Renaming.nameOf?] using hknown
    have hmem : c.mapping ∈ t.classes := by
      obtain ⟨u, hu, hm⟩ := exists_of_mem_outermost hc
      rwa [List.mem_singleton.mp hu] at hm
    have hr := Renaming.resolve_of_known (hclean.classes c.mapping hmem).versions hknown
    have hob := obfuscate_mem hn hc v
    refine ⟨c.mapping, hmem, rfl, ?_, ?_⟩
    · intro hsame
      exact hob.trans (congrArg some (hr.1 hsame))
    · intro hother
      obtain ⟨hne, hdefault⟩ := hr.2 hother
      exact ⟨fun he => hne (Option.some.inj (hob.symm.trans he)), hdefault⟩

theorem obfuscate_inverse_swapped :
    let swapped : ClassMapping := ⟨⟨"A", "a", [.live "v" "b" .empty, .gone "w"]⟩, .empty, [], [], []⟩
    let back : ClassMapping := ⟨⟨"B", "b", [.live "v" "a" .empty]⟩, .empty, [], [], []⟩
    let third : ClassMapping := ⟨⟨"C", "c", [.live "v" "d" .empty]⟩, .empty, [], [], []⟩
    let t : Mapping := ⟨"", .empty, [swapped, back, third]⟩
    t.validate = [] ∧
      (∀ n ∈ ["A", "B", "C"], ((ofSources [t]).obfuscate n (some "v")).bind
        ((ofSources [t]).deobfuscate · (some "v")) = some n) ∧
      (ofSources [t]).deobfuscate "c" (some "v") = some "C" ∧
      (ofSources [t]).obfuscate "C" (some "v") ≠ some "c" := by
  intro swapped back third t
  have hv : t.validate = [] := by decide
  have hd : (ofSources [t]).deobfuscate "c" (some "v") = some "C" := by
    rw [(scans_ofSources [t]).deobfuscate]
    decide
  have hi := obfuscate_inverse hv (some "v")
  refine ⟨hv, hi.1.mpr (by decide), hd, ?_⟩
  obtain ⟨c, hc, hn, -, hother⟩ := hi.2 "c" "C" hd
  have hc : c = swapped ∨ c = back ∨ c = third := by simpa [t] using hc
  obtain rfl | rfl | rfl := hc
  · exact absurd hn (by decide)
  · exact absurd hn (by decide)
  · exact (hother ⟨.live "v" "d" .empty, by decide, rfl, by decide⟩).1

end Index

end ObfuscationMap
