import ObfuscationMap.Proofs.Legality.Resolution
import ObfuscationMap.Proofs.RoundTrip

/-!
What every compiled mapping looks like, however deep its classes stand. Legality is handed down from a class
to the classes inside it. For a single class it says of which letters the names are, which aliases are
removed, and what texts may hold.
-/

namespace ObfuscationMap

/-- The class is one of these, or it stands inside one of them, at any depth. -/
inductive ClassMapping.Within (c : ClassMapping) : List ClassMapping → Prop
  | here {cs : List ClassMapping} : c ∈ cs → Within c cs
  | inside {d : ClassMapping} {cs : List ClassMapping} : d ∈ cs → Within c d.inner → Within c cs

theorem ClassMapping.Legal.within {c : ClassMapping} {cs : List ClassMapping} (h : c.Within cs)
    (hl : ∀ d ∈ cs, d.Legal) : c.Legal := by
  induction h with
  | here hc => exact hl c hc
  | inside hd _ ih =>
    apply ih
    cases hl _ hd with
    | mk _ _ _ _ _ hi _ => exact hi

structure Metadata.WellFormed (m : Metadata) : Prop where
  keys : ∀ key ∈ m.keys, isIdentifier key
  distinct : m.keys.Nodup
  values : ∀ e ∈ m.entries, '"' ∉ e.2.toList

/-- A removed alias is one without a name, and it has no data. -/
structure Alias.WellFormed (a : Alias) : Prop where
  version : isIdentifier a.version
  name : ¬ a.removed → isIdentifier a.name
  removed_iff : a.removed ↔ a.name = ""
  removed_data : a.removed → a.metadata = .empty
  live_version : ¬ a.removed → a.version ≠ Keyword.removed.spelling
  metadata : a.metadata.WellFormed

structure Renaming.WellFormed (isDefault : String → Bool) (r : Renaming) : Prop where
  name : isIdentifier r.name
  obfuscated : isDefault r.obfuscated
  aliases : ∀ a ∈ r.aliases, a.WellFormed

structure FieldMapping.WellFormed (f : FieldMapping) : Prop where
  names : f.toRenaming.WellFormed isIdentifier
  metadata : f.metadata.WellFormed

structure MethodMapping.WellFormed (m : MethodMapping) : Prop where
  names : m.toRenaming.WellFormed isIdentifier
  parameters : ∀ p ∈ m.parameters, isQualified p.type
  javadoc : ∀ doc ∈ m.javadoc, ¬ ['*', '/'] <:+: doc.toList ∧ doc.toList.head? ≠ some '/'
  metadata : m.metadata.WellFormed

structure ClassMapping.WellFormed (c : ClassMapping) : Prop where
  names : c.toRenaming.WellFormed isQualified
  metadata : c.metadata.WellFormed
  methods : ∀ m ∈ c.methods, m.WellFormed
  fields : ∀ f ∈ c.fields, f.WellFormed

structure Mapping.WellFormed (t : Mapping) : Prop where
  package : t.package = "" ∨ isQualified t.package
  imports : ∀ e ∈ t.imports.entries, isIdentifier e.1 ∧ isQualified e.2
  distinct : t.imports.keys.Nodup
  classes : ∀ c : ClassMapping, c.Within t.classes → c.WellFormed

theorem identifier_ne_empty {w : String} (h : isIdentifier w) : w ≠ "" := by
  rintro rfl
  cases h

theorem Metadata.Legal.wellFormed {m : Metadata} (h : m.Legal) : m.WellFormed where
  keys := by
    intro key hk
    obtain ⟨e, he, rfl⟩ := List.mem_map.mp hk
    exact (h e he).1
  distinct := m.nodup
  values := fun e he => (h e he).2

theorem Alias.Legal.wellFormed {a : Alias} (h : a.Legal) : a.WellFormed := by
  by_cases hr : a.removed
  · obtain ⟨hn, hd⟩ := h.removed hr
    have hempty : a.metadata = .empty := OrderedMap.ext hd
    have hlegal : a.metadata.Legal := by
      rw [hempty]
      decide
    exact ⟨h.version, fun hl => absurd hr hl, iff_of_true hr hn, fun _ => hempty, fun hl => absurd hr hl,
      hlegal.wellFormed⟩
  · obtain ⟨hn, hd, hv⟩ := h.live hr
    exact ⟨h.version, fun _ => hn, iff_of_false hr (identifier_ne_empty hn), fun h => absurd h hr,
      fun _ => hv, hd.wellFormed⟩

theorem FieldMapping.Legal.wellFormed {f : FieldMapping} (h : f.Legal) : f.WellFormed where
  names := ⟨h.name, h.obfuscated, fun a ha => (h.aliases a ha).wellFormed⟩
  metadata := h.metadata.wellFormed

theorem MethodMapping.Legal.wellFormed {m : MethodMapping} (h : m.Legal) : m.WellFormed where
  names := ⟨h.name, h.obfuscated, fun a ha => (h.aliases a ha).wellFormed⟩
  parameters := h.parameters
  javadoc := h.javadoc
  metadata := h.metadata.wellFormed

theorem ClassMapping.Legal.wellFormed {c : ClassMapping} (h : c.Legal) : c.WellFormed := by
  cases h with
  | mk hn ho hd hms hfs _ has =>
    exact ⟨⟨hn, ho, fun a ha => (has a ha).wellFormed⟩, hd.wellFormed, fun m hm => (hms m hm).wellFormed,
      fun f hf => (hfs f hf).wellFormed⟩

theorem Mapping.Legal.wellFormed {t : Mapping} (h : t.Legal) : t.WellFormed where
  package := h.package
  imports := h.imports
  distinct := t.imports.nodup
  classes := fun _ hc => (ClassMapping.Legal.within hc h.classes).wellFormed

theorem wellFormed_of_compile {source : String} {t : Mapping} (h : compile source = .ok t) :
    t.WellFormed := (legal_of_compile h).wellFormed

theorem wellFormed_of_compile_inner :
    let source := "import a.T as U; class B\x7bclass C\x7bmd f(U...)\x7baliases\x7bremoved x;\x7d\x7d\x7d\x7d"
    ∃ t, compile source = .ok t ∧ t.WellFormed := by
  intro source
  let method : MethodDecl := ⟨"f", [⟨"U", true⟩], none, none, [.gone "x"], .empty⟩
  let inner : ClassDecl := (ClassDecl.ofHeader "C" none .empty).addMethod method
  let s : Script := ⟨none, [⟨"a.T", some "U"⟩], [(ClassDecl.ofHeader "B" none .empty).addInner inner]⟩
  have h : compile source = .ok s.resolve := compile_of_symbols (by cbv) (by decide) (by cbv)
  exact ⟨_, h, wellFormed_of_compile h⟩

end ObfuscationMap
