import ObfuscationMap.Mapping.Resolution
import ObfuscationMap.Proofs.Lookup
import ObfuscationMap.Proofs.Names
import ObfuscationMap.Proofs.OrderedMap
import Mathlib.Data.List.Forall2

/-!
What becomes of a script once its names are settled. At every depth the same things stand at the same places,
with the names, aliases and data they were declared with. The type of a parameter is what the last import of the
whole script brings that goes by it, taken as it stands. This settles the mapping: there is just one.
-/

namespace ObfuscationMap

open List (Forall₂)

def Import.GoesBy (i : Import) (key : String) : Prop :=
  match i.asName with
  | some name => name = key
  | none => IsLastPart i.path key

def LastImport (imports : List Import) (key : String) (i : Import) : Prop :=
  First (·.GoesBy key) imports.reverse i

theorem Import.key_eq_iff {i : Import} {key : String} : i.key = key ↔ i.GoesBy key := by
  rw [Import.key, Import.GoesBy]
  cases i.asName with
  | none => exact lastPart_eq_iff
  | some name => exact Iff.rfl

section imports

variable {imports : List Import} {key path : String}

theorem find?_importTable (imports : List Import) (key : String) : (importTable imports).find? key =
    (imports.reverse.find? fun i => i.key == key).map (·.path) := by
  rw [importTable, OrderedMap.find?_ofList, ← List.map_reverse, List.find?_map, Option.map_map]
  rfl

theorem find?_importTable_eq_some_iff : (importTable imports).find? key = some path ↔
    ∃ i, LastImport imports key i ∧ i.path = path := by
  rw [find?_importTable, Option.map_eq_some_iff]
  simp only [find?_eq_some_iff_first fun _ => beq_iff_eq.trans Import.key_eq_iff]
  exact Iff.rfl

theorem find?_importTable_eq_none_iff : (importTable imports).find? key = none ↔
    ∀ i ∈ imports, ¬ i.GoesBy key := by
  rw [find?_importTable, Option.map_eq_none_iff,
    find?_eq_none_iff_not fun _ => beq_iff_eq.trans Import.key_eq_iff]
  simp only [List.mem_reverse]

end imports

/-- What a type of the script stands for. What an import brings is not looked up again. -/
inductive SettlesType (imports : List Import) (type : String) : String → Prop
  | imported {i : Import} : LastImport imports type i → SettlesType imports type i.path
  | own : (∀ i ∈ imports, ¬ i.GoesBy type) → SettlesType imports type type

theorem settlesType_iff {imports : List Import} {type full : String} :
    SettlesType imports type full ↔ full = resolveType (importTable imports) type := by
  rw [resolveType]
  constructor
  · intro h
    cases h with
    | imported hi => rw [find?_importTable_eq_some_iff.mpr ⟨_, hi, rfl⟩, Option.getD_some]
    | own hn => rw [find?_importTable_eq_none_iff.mpr hn, Option.getD_none]
  · rintro rfl
    cases hf : (importTable imports).find? type with
    | none => exact .own (find?_importTable_eq_none_iff.mp hf)
    | some path =>
      obtain ⟨i, hi, rfl⟩ := find?_importTable_eq_some_iff.mp hf
      exact .imported hi

/-- The names are kept, and the own name stands for an obfuscated one that is not declared. -/
structure KeepsNames (name : String) (obfuscated : Option String) (as : List Alias) (r : Renaming) : Prop where
  own : r.name = name
  declared : ∀ o, obfuscated = some o → r.obfuscated = o
  missing : obfuscated = none → r.obfuscated = name
  aliases : r.aliases = as

structure SettlesParameter (imports : List Import) (p q : Parameter) : Prop where
  type : SettlesType imports p.type q.type
  varargs : q.varargs = p.varargs

structure SettlesField (d : FieldDecl) (f : FieldMapping) : Prop where
  names : KeepsNames d.name d.obfuscated d.aliases f.toRenaming
  metadata : f.metadata = d.metadata

structure SettlesMethod (imports : List Import) (d : MethodDecl) (m : MethodMapping) : Prop where
  names : KeepsNames d.name d.obfuscated d.aliases m.toRenaming
  parameters : Forall₂ (SettlesParameter imports) d.parameters m.parameters
  javadoc : m.javadoc = d.javadoc
  metadata : m.metadata = d.metadata

inductive SettlesClass (imports : List Import) : ClassDecl → ClassMapping → Prop
  | mk {d : ClassDecl} {c : ClassMapping} : KeepsNames d.name d.obfuscated d.aliases c.toRenaming →
      c.metadata = d.metadata → Forall₂ (SettlesMethod imports) d.methods c.methods →
      Forall₂ SettlesField d.fields c.fields → Forall₂ (SettlesClass imports) d.inner c.inner →
      SettlesClass imports d c

/-- The imports are listed by the names they go by, each at its first place and with its last path. -/
structure Settles (s : Script) (t : Mapping) : Prop where
  package : t.package = s.package.getD ""
  keys : ∃ keys, Forall₂ Import.GoesBy s.imports keys ∧ t.imports.keys = keys.eraseDups
  paths : ∀ key path, (key, path) ∈ t.imports.entries ↔ ∃ i, LastImport s.imports key i ∧ i.path = path
  classes : Forall₂ (SettlesClass s.imports) s.classes t.classes

theorem forall₂_iff_eq_map {α β : Type} {R : α → β → Prop} {f : α → β} {as : List α} {bs : List β}
    (h : ∀ a ∈ as, ∀ b, R a b ↔ b = f a) : Forall₂ R as bs ↔ bs = as.map f := by
  induction as generalizing bs with
  | nil => rw [List.forall₂_nil_left_iff, List.map_nil]
  | cons a as ih =>
    rw [List.forall_mem_cons] at h
    rw [List.forall₂_cons_left_iff, List.map_cons]
    constructor
    · rintro ⟨b, cs, hab, hrest, rfl⟩
      rw [(h.1 b).mp hab, (ih h.2).mp hrest]
    · rintro rfl
      exact ⟨_, _, (h.1 _).mpr rfl, (ih h.2).mpr rfl, rfl⟩

theorem keepsNames_iff {name : String} {obfuscated : Option String} {as : List Alias} {r : Renaming} :
    KeepsNames name obfuscated as r ↔ r = ⟨name, obfuscated.getD name, as⟩ := by
  obtain ⟨own, default, aliases⟩ := r
  constructor
  · rintro ⟨rfl, hdeclared, hmissing, rfl⟩
    cases obfuscated with
    | none =>
      obtain rfl : default = own := hmissing rfl
      rfl
    | some o =>
      obtain rfl : default = o := hdeclared o rfl
      rfl
  · intro h
    obtain ⟨rfl, rfl, rfl⟩ := Renaming.mk.inj h
    refine ⟨rfl, ?_, ?_, rfl⟩
    · rintro o rfl
      rfl
    · rintro rfl
      rfl

theorem settlesParameter_iff {imports : List Import} {p q : Parameter} :
    SettlesParameter imports p q ↔ q = p.resolve (importTable imports) := by
  obtain ⟨type, varargs⟩ := q
  constructor
  · rintro ⟨htype, rfl⟩
    rw [Parameter.resolve, ← settlesType_iff.mp htype]
  · intro h
    obtain ⟨rfl, rfl⟩ := Parameter.mk.inj h
    exact ⟨settlesType_iff.mpr rfl, rfl⟩

theorem settlesField_iff {d : FieldDecl} {f : FieldMapping} : SettlesField d f ↔ f = d.resolve := by
  obtain ⟨names, metadata⟩ := f
  constructor
  · rintro ⟨hnames, rfl⟩
    rw [FieldDecl.resolve, ← keepsNames_iff.mp hnames]
  · intro h
    obtain ⟨rfl, rfl⟩ := FieldMapping.mk.inj h
    exact ⟨keepsNames_iff.mpr rfl, rfl⟩

theorem settlesMethod_iff {imports : List Import} {d : MethodDecl} {m : MethodMapping} :
    SettlesMethod imports d m ↔ m = d.resolve (importTable imports) := by
  have hparameters : ∀ qs, Forall₂ (SettlesParameter imports) d.parameters qs ↔
      qs = d.parameters.map (·.resolve (importTable imports)) :=
    fun _ => forall₂_iff_eq_map fun _ _ _ => settlesParameter_iff
  obtain ⟨names, parameters, javadoc, metadata⟩ := m
  constructor
  · rintro ⟨hnames, hps, rfl, rfl⟩
    rw [MethodDecl.resolve, ← keepsNames_iff.mp hnames, ← (hparameters _).mp hps]
  · intro h
    obtain ⟨rfl, rfl, rfl, rfl⟩ := MethodMapping.mk.inj h
    exact ⟨keepsNames_iff.mpr rfl, (hparameters _).mpr rfl, rfl, rfl⟩

theorem ClassDecl.inner_induction {P : ClassDecl → Prop} (h : ∀ d, (∀ e ∈ d.inner, P e) → P d)
    (d : ClassDecl) : P d :=
  h d fun e _ => ClassDecl.inner_induction h e
termination_by sizeOf d
decreasing_by
  have hlt := List.sizeOf_lt_of_mem ‹e ∈ d.inner›
  obtain ⟨name, obfuscated, metadata, methods, fields, inner, aliases⟩ := d
  simp only [mk.sizeOf_spec] at *
  omega

theorem settlesClass_iff {imports : List Import} (d : ClassDecl) (c : ClassMapping) :
    SettlesClass imports d c ↔ c = d.resolve (importTable imports) := by
  induction d using ClassDecl.inner_induction generalizing c with
  | h d ih =>
    have hmethods : ∀ ms, Forall₂ (SettlesMethod imports) d.methods ms ↔
        ms = d.methods.map (·.resolve (importTable imports)) :=
      fun _ => forall₂_iff_eq_map fun _ _ _ => settlesMethod_iff
    have hfields : ∀ fs, Forall₂ SettlesField d.fields fs ↔ fs = d.fields.map (·.resolve) :=
      fun _ => forall₂_iff_eq_map fun _ _ _ => settlesField_iff
    have hinner : ∀ cs, Forall₂ (SettlesClass imports) d.inner cs ↔
        cs = d.inner.map (·.resolve (importTable imports)) := fun _ => forall₂_iff_eq_map ih
    obtain ⟨names, metadata, methods, fields, inner⟩ := c
    rw [ClassDecl.resolve_eq]
    constructor
    · intro h
      cases h with
      | mk hn hd hms hfs his =>
        rw [← keepsNames_iff.mp hn, ← hd, ← (hmethods _).mp hms, ← (hfields _).mp hfs, ← (hinner _).mp his]
    · intro h
      obtain ⟨rfl, rfl, rfl, rfl, rfl⟩ := ClassMapping.mk.inj h
      exact .mk (keepsNames_iff.mpr rfl) rfl ((hmethods _).mpr rfl) ((hfields _).mpr rfl) ((hinner _).mpr rfl)

theorem forall₂_goesBy_iff {imports : List Import} {keys : List String} :
    Forall₂ Import.GoesBy imports keys ↔ keys = imports.map (·.key) :=
  forall₂_iff_eq_map fun _ _ _ => Import.key_eq_iff.symm.trans eq_comm

theorem keys_importTable (imports : List Import) :
    (importTable imports).keys = (imports.map (·.key)).eraseDups := by
  rw [importTable, OrderedMap.keys_ofList, List.map_map]
  rfl

theorem OrderedMap.mem_entries_iff {α : Type} {m : OrderedMap α} {key : String} {value : α} :
    (key, value) ∈ m.entries ↔ m.find? key = some value := by
  rw [OrderedMap.find?, Option.map_eq_some_iff]
  constructor
  · intro h
    exact ⟨(key, value), find?_of_nodup (f := Prod.fst) m.nodup h, rfl⟩
  · rintro ⟨⟨k, v⟩, hf, rfl⟩
    have hk := List.find?_some hf
    obtain rfl : k = key := beq_iff_eq.mp hk
    exact List.mem_of_find?_eq_some hf

theorem settles_resolve (s : Script) : Settles s s.resolve where
  package := rfl
  keys := ⟨_, forall₂_goesBy_iff.mpr rfl, keys_importTable s.imports⟩
  paths _ _ := OrderedMap.mem_entries_iff.trans find?_importTable_eq_some_iff
  classes := (forall₂_iff_eq_map fun d _ c => settlesClass_iff d c).mpr s.classes_resolve

theorem Settles.imports {s : Script} {t : Mapping} (h : Settles s t) : t.imports = importTable s.imports := by
  obtain ⟨keys, hgoes, hkeys⟩ := h.keys
  rw [forall₂_goesBy_iff.mp hgoes, ← keys_importTable] at hkeys
  refine OrderedMap.ext (OrderedMap.entries_eq t.imports.nodup hkeys fun key => Option.ext fun path => ?_)
  exact OrderedMap.mem_entries_iff.symm.trans ((h.paths key path).trans find?_importTable_eq_some_iff.symm)

theorem settles_iff {s : Script} {t : Mapping} : Settles s t ↔ t = s.resolve := by
  constructor
  · intro h
    have hclasses := (forall₂_iff_eq_map fun d _ c => settlesClass_iff d c).mp h.classes
    rw [← s.classes_resolve] at hclasses
    change t = ⟨s.package.getD "", importTable s.imports, s.resolve.classes⟩
    rw [← hclasses, ← h.package, ← h.imports]
  · rintro rfl
    exact settles_resolve s

mutual

def ClassDecl.declared : ClassDecl → List ClassDecl
  | ⟨name, obfuscated, metadata, methods, fields, inner, aliases⟩ =>
    ⟨name, obfuscated, metadata, methods, fields, inner, aliases⟩ :: declaredClasses inner

def declaredClasses : List ClassDecl → List ClassDecl
  | [] => []
  | d :: ds => d.declared ++ declaredClasses ds

end

mutual

theorem count_resolve (table : OrderedMap String) :
    ∀ d : ClassDecl, (d.resolve table).count = d.declared.length
  | ⟨_, _, _, _, _, inner, _⟩ => by
    rw [ClassDecl.resolve, ClassMapping.count, ClassDecl.declared, List.length_cons,
      countClasses_resolve table inner, Nat.add_comm]

theorem countClasses_resolve (table : OrderedMap String) :
    ∀ ds : List ClassDecl, countClasses (resolveClasses table ds) = (declaredClasses ds).length
  | [] => rfl
  | d :: ds => by
    rw [resolveClasses, countClasses, declaredClasses, List.length_append, count_resolve table d,
      countClasses_resolve table ds]

end

/-- The mapping of a script is what its names are settled to, and it has as many classes as are declared. -/
theorem resolve_settled (s : Script) : (∀ t, Settles s t ↔ t = s.resolve) ∧
    s.resolve.classCount = (declaredClasses s.classes).length :=
  ⟨fun _ => settles_iff, countClasses_resolve (importTable s.imports) s.classes⟩

example :
    let m : MethodDecl := ⟨"f", [⟨"A", false⟩, ⟨"B", true⟩], none, none, [], .empty⟩
    let s : Script := ⟨none, [⟨"C", some "A"⟩, ⟨"A", some "B"⟩, ⟨"B", some "A"⟩], [⟨"D", none, .empty, [m], [], [], []⟩]⟩
    s.resolve.classes.flatMap (·.methods.map (·.parameters)) = [[⟨"B", false⟩, ⟨"A", true⟩]] := by
  decide

end ObfuscationMap
