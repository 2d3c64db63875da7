import ObfuscationMap.Proofs.Emission.Splitting
import ObfuscationMap.Proofs.Versions.Alike
import ObfuscationMap.Remapper

/-!
All that is answered at a version: by the formats, by the remapper and by an index. Mappings that look alike
get the same answers, where classes and members are told by their places.
-/

namespace ObfuscationMap

open List (Forall₂)

section members

variable {α : Type} (names : α → Renaming) (ms : List α) (name : String) (v : Version)

def memberPlace : Option Nat :=
  (findMember (fun m : α × Nat => names m.1) ms.zipIdx name v).map Prod.snd

variable {names ms name v}

theorem findMember_zipIdx : (findMember (fun m : α × Nat => names m.1) ms.zipIdx name v).map Prod.fst =
    findMember names ms name v := by
  have hz : ms.zipIdx.map Prod.fst = ms := List.zipIdx_map_fst 0 ms
  conv_rhs => rw [← hz]
  rw [findMember_eq_search, findMember_eq_search, search_map]

theorem findMember_eq_bind : findMember names ms name v = (memberPlace names ms name v).bind (ms[·]?) := by
  rw [← findMember_zipIdx, memberPlace, findMember_eq_search]
  cases hf : search (fun m : α × Nat => names m.1) ms.zipIdx name v [.own, .versioned, .default] with
  | none => rfl
  | some m => exact (List.mem_zipIdx_iff_getElem?.mp (search_hit hf).1).symm

end members

namespace Index

/-- The place of the member that is found in a class: its source, the class there, and the member there. -/
def placeIn {α : Type} (i : Index) (names : α → Renaming) (members : ClassMapping → List α)
    (className name : String) (v : Version) : Option (Nat × Nat × Nat) :=
  (i.findClass className v).bind fun c =>
    (memberPlace names (members c.mapping) name v).map fun k => (c.source, c.place, k)

def methodPlace (i : Index) (className name : String) (v : Version) : Option (Nat × Nat × Nat) :=
  i.placeIn (·.toRenaming) (·.methods) className name v

def fieldPlace (i : Index) (className name : String) (v : Version) : Option (Nat × Nat × Nat) :=
  i.placeIn (·.toRenaming) (·.fields) className name v

end Index

def memberAt? {α : Type} (ts : List Mapping) (members : ClassMapping → List α) (place : Nat × Nat × Nat) :
    Option α :=
  (classAt? ts place.1 place.2.1).bind fun c => (members c)[place.2.2]?

def SourcedClass.position (c : SourcedClass) : Nat × Nat := (c.source, c.place)

theorem bind_placeIn {α : Type} (ts : List Mapping) (names : α → Renaming)
    (members : ClassMapping → List α) (className name : String) (v : Version) :
    ((Index.ofSources ts).findClass className v).bind
        (fun c => findMember names (members c.mapping) name v) =
      ((Index.ofSources ts).placeIn names members className name v).bind (memberAt? ts members) := by
  rw [Index.placeIn, Index.findClass_ofSources]
  cases hc : search SourcedClass.names (outermost ts) className v [.own, .default, .versioned] with
  | none => rfl
  | some c =>
    have hat := mem_outermost.mp (search_hit hc).1
    rw [Option.bind_some, Option.bind_some, findMember_eq_bind, Option.bind_map]
    congr 1
    funext k
    exact (congrArg (Option.bind · fun c => (members c)[k]?) hat).symm

namespace Remapper

def ofSources (ts : List Mapping) (v : Version) : Remapper := (ofSession (.ofSources ts)).useVersion v

theorem classes_ofSources (ts : List Mapping) (v : Version) (name : String) :
    (ofSources ts v).classes[name]? = (ownedClasses ts).find? fun c => address c == name := by
  have hf := getElem?_insertIfNew_all address (ownedClasses ts) ∅ name
  rw [Std.HashMap.getElem?_empty, Option.none_or] at hf
  exact hf

theorem mapClass_eq (r : Remapper) (name : String) : r.mapClass name =
    (r.classes[name]?.map fun c =>
      internalName (c.owner.obfuscatedFullName c.mapping r.version)).getD name := by
  rw [mapClass]
  cases r.classes[name]? <;> rfl

theorem mapField_eq (r : Remapper) (owner name : String) : r.mapField owner name =
    ((r.classes[owner]?.bind fun c => c.mapping.findField name r.version).map
      fun f => f.resolve r.version).getD name := by
  rw [mapField]
  cases r.classes[owner]?.bind fun c => c.mapping.findField name r.version <;> rfl

theorem mapMethod_eq (r : Remapper) (owner name descriptor : String) : r.mapMethod owner name descriptor =
    ((r.classes[owner]?.bind fun c =>
      (findOverload c.mapping name descriptor).or (c.mapping.findMethod name r.version)).map
        fun m => m.resolve r.version).getD name := by
  rw [mapMethod]
  simp only [Option.orElse_eq_orElse, Option.orElse_eq_or]
  cases r.classes[owner]?.bind fun c =>
    (findOverload c.mapping name descriptor).or (c.mapping.findMethod name r.version) <;> rfl

end Remapper

/-- All answers about `ts` at the version `v` are those about `us` at the version `w`. Classes and members are
compared by their places. -/
structure SameAnswers (ts : List Mapping) (v : Version) (us : List Mapping) (w : Version) : Prop where
  emit : ∀ f : EmitFormat, ts.map (f.emit · v) = us.map (f.emit · w)
  emitAll : ∀ f : EmitFormat, f.emitAll ts v = f.emitAll us w
  mapClass : ∀ name, (Remapper.ofSources ts v).mapClass name = (Remapper.ofSources us w).mapClass name
  mapField : ∀ owner name,
    (Remapper.ofSources ts v).mapField owner name = (Remapper.ofSources us w).mapField owner name
  mapMethod : ∀ owner name descriptor, (Remapper.ofSources ts v).mapMethod owner name descriptor =
    (Remapper.ofSources us w).mapMethod owner name descriptor
  mapDescriptor : ∀ descriptor,
    (Remapper.ofSources ts v).mapDescriptor descriptor = (Remapper.ofSources us w).mapDescriptor descriptor
  deobfuscate : ∀ name,
    (Index.ofSources ts).deobfuscate name v = (Index.ofSources us).deobfuscate name w
  deobfuscateWithSource : ∀ name,
    (Index.ofSources ts).deobfuscateWithSource name v = (Index.ofSources us).deobfuscateWithSource name w
  deobfuscateAll : ∀ name,
    (Index.ofSources ts).deobfuscateAll name v = (Index.ofSources us).deobfuscateAll name w
  obfuscate : ∀ name, (Index.ofSources ts).obfuscate name v = (Index.ofSources us).obfuscate name w
  obfuscateWithSource : ∀ name,
    (Index.ofSources ts).obfuscateWithSource name v = (Index.ofSources us).obfuscateWithSource name w
  obfuscateAll : ∀ name,
    (Index.ofSources ts).obfuscateAll name v = (Index.ofSources us).obfuscateAll name w
  findAllClasses : ∀ name, ((Index.ofSources ts).findAllClasses name v).map (·.position) =
    ((Index.ofSources us).findAllClasses name w).map (·.position)
  findClass : ∀ name, ((Index.ofSources ts).findClass name v).map (·.position) =
    ((Index.ofSources us).findClass name w).map (·.position)
  findMethod : ∀ className name, (Index.ofSources ts).methodPlace className name v =
    (Index.ofSources us).methodPlace className name w
  findField : ∀ className name, (Index.ofSources ts).fieldPlace className name v =
    (Index.ofSources us).fieldPlace className name w

section alike

variable {v w : Version} {t u : Mapping} {ts us : List Mapping}

theorem Mapping.Alike.entries (h : t.Alike v w u) : t.entries v = u.entries w := by
  refine map_eq_of_forall₂ h.classes fun c d hcd => ?_
  have hf : c.fields.map (FieldEntry.of v) = d.fields.map (FieldEntry.of w) :=
    map_eq_of_forall₂ hcd.fields fun f g hfg => by
      rw [FieldEntry.of, FieldEntry.of, hfg.name, hfg.resolve]
  have hm : c.methods.map (MethodEntry.of v) = d.methods.map (MethodEntry.of w) :=
    map_eq_of_forall₂ hcd.methods fun m n hmn => by
      rw [MethodEntry.of, MethodEntry.of, hmn.names.name, hmn.names.resolve, hmn.parameters]
  rw [ClassEntry.of, ClassEntry.of, h.fullName hcd, h.obfuscatedFullName hcd, hf, hm]

theorem Mapping.Alike.emit (h : t.Alike v w u) (f : EmitFormat) : f.emit t v = f.emit u w := by
  cases f with
  | proguard => exact Proguard.emit_congr h.entries
  | srg => exact Srg.emit_congr h.entries

structure OwnedClass.Alike (v w : Version) (c d : OwnedClass) : Prop where
  owner : c.owner.Alike v w d.owner
  mapping : c.mapping.Alike v w d.mapping

theorem alike_ownedClasses (h : Forall₂ (Mapping.Alike v w) ts us) :
    Forall₂ (OwnedClass.Alike v w) (Remapper.ownedClasses ts) (Remapper.ownedClasses us) :=
  List.rel_flatMap h fun _ _ htu => List.rel_map (fun _ _ hcd => ⟨htu, hcd⟩) htu.classes

theorem rel_classes (h : Forall₂ (Mapping.Alike v w) ts us) (name : String) :
    Option.Rel (OwnedClass.Alike v w) (Remapper.ofSources ts v).classes[name]?
      (Remapper.ofSources us w).classes[name]? := by
  rw [Remapper.classes_ofSources, Remapper.classes_ofSources]
  refine rel_find? (alike_ownedClasses h) fun c d hcd => ?_
  rw [Remapper.address, Remapper.address, hcd.owner.fullName hcd.mapping]

theorem ClassMapping.Alike.findField {c d : ClassMapping} (h : c.Alike v w d) (name : String) :
    Option.Rel (fun f g => f.toRenaming.Alike v w g.toRenaming) (c.findField name v)
      (d.findField name w) :=
  rel_findMember (fun _ _ hfg => hfg) h.fields name

theorem ClassMapping.Alike.findMethod {c d : ClassMapping} (h : c.Alike v w d) (name : String) :
    Option.Rel (MethodMapping.Alike v w) (c.findMethod name v) (d.findMethod name w) :=
  rel_findMember (fun _ _ hmn => hmn.names) h.methods name

theorem ClassMapping.Alike.findOverload {c d : ClassMapping} (h : c.Alike v w d) (name descriptor : String) :
    Option.Rel (MethodMapping.Alike v w) (Remapper.findOverload c name descriptor)
      (Remapper.findOverload d name descriptor) := by
  rw [Remapper.findOverload, Remapper.findOverload]
  cases Remapper.parameterPart? descriptor.toList with
  | none => exact .none
  | some part =>
    refine rel_find? h.methods fun m n hmn => ?_
    rw [hmn.names.name, hmn.parameters]

theorem alike_mapClass (h : Forall₂ (Mapping.Alike v w) ts us) (name : String) :
    (Remapper.ofSources ts v).mapClass name = (Remapper.ofSources us w).mapClass name := by
  rw [Remapper.mapClass_eq, Remapper.mapClass_eq]
  refine congrArg (Option.getD · name) (map_eq_of_rel (rel_classes h name) fun c d hcd => ?_)
  exact congrArg internalName (hcd.owner.obfuscatedFullName hcd.mapping)

theorem alike_mapField (h : Forall₂ (Mapping.Alike v w) ts us) (owner name : String) :
    (Remapper.ofSources ts v).mapField owner name = (Remapper.ofSources us w).mapField owner name := by
  have hfound := rel_bind (rel_classes h owner) fun c d hcd => hcd.mapping.findField name
  rw [Remapper.mapField_eq, Remapper.mapField_eq]
  exact congrArg (Option.getD · name) (map_eq_of_rel hfound fun f g hfg => hfg.resolve)

theorem alike_mapMethod (h : Forall₂ (Mapping.Alike v w) ts us) (owner name descriptor : String) :
    (Remapper.ofSources ts v).mapMethod owner name descriptor =
      (Remapper.ofSources us w).mapMethod owner name descriptor := by
  have hfound := rel_bind (rel_classes h owner) fun c d hcd =>
    rel_or (hcd.mapping.findOverload name descriptor) (hcd.mapping.findMethod name)
  rw [Remapper.mapMethod_eq, Remapper.mapMethod_eq]
  exact congrArg (Option.getD · name) (map_eq_of_rel hfound fun m n hmn => hmn.names.resolve)

theorem alike_placeIn {α : Type} {names : α → Renaming} {members : ClassMapping → List α} {R : α → α → Prop}
    (hR : ∀ a b, R a b → (names a).Alike v w (names b))
    (hm : ∀ c d : ClassMapping, c.Alike v w d → Forall₂ R (members c) (members d))
    (h : Forall₂ (Mapping.Alike v w) ts us) (className name : String) :
    (Index.ofSources ts).placeIn names members className name v =
      (Index.ofSources us).placeIn names members className name w := by
  rw [Index.placeIn, Index.placeIn, Index.findClass_ofSources, Index.findClass_ofSources]
  refine bind_eq_of_rel (rel_searchClass (alike_outermost h) className _) fun c d hcd => ?_
  have hplace : memberPlace names (members c.mapping) name v =
      memberPlace names (members d.mapping) name w :=
    map_eq_of_rel (rel_findMember (fun a b hab => hR _ _ hab.1)
      (forall₂_zipIdx (hm _ _ hcd.mapping) 0) name) fun a b hab => hab.2
  rw [hplace, hcd.source, hcd.place]

theorem SourcedClass.Alike.sourcedName {c d : SourcedClass} (h : c.Alike v w d) :
    (c.mapping.name, c.source) = (d.mapping.name, d.source) := by
  rw [h.mapping.names.name, h.source]

theorem SourcedClass.Alike.sourcedObfuscated {c d : SourcedClass} (h : c.Alike v w d) :
    (c.mapping.resolve v, c.source) = (d.mapping.resolve w, d.source) := by
  rw [h.mapping.names.resolve, h.source]

theorem SourcedClass.Alike.position {c d : SourcedClass} (h : c.Alike v w d) : c.position = d.position := by
  rw [SourcedClass.position, SourcedClass.position, h.source, h.place]

section classes

variable {β : Type} {f g : SourcedClass → β} {name : String} {ks : List NameKind}

theorem map_search_alike (h : Forall₂ (Mapping.Alike v w) ts us)
    (hfg : ∀ c d : SourcedClass, c.Alike v w d → f c = g d) :
    (search SourcedClass.names (outermost ts) name v ks).map f =
      (search SourcedClass.names (outermost us) name w ks).map g :=
  map_eq_of_rel (rel_searchClass (alike_outermost h) name ks) hfg

theorem filterMap_search_alike (h : Forall₂ (Mapping.Alike v w) ts us)
    (hfg : ∀ c d : SourcedClass, c.Alike v w d → f c = g d) :
    (ts.zipIdx.filterMap fun t => (search SourcedClass.names (t.1.sourced t.2) name v ks).map f) =
      us.zipIdx.filterMap fun t => (search SourcedClass.names (t.1.sourced t.2) name w ks).map g := by
  refine filterMap_eq_of_forall₂ (forall₂_zipIdx h 0) ?_
  rintro ⟨t, n⟩ ⟨u, _⟩ ⟨htu, rfl⟩
  exact map_eq_of_rel (rel_searchClass (htu.sourced n) name ks) hfg

end classes

theorem sameAnswers_of_alike (h : Forall₂ (Mapping.Alike v w) ts us) : SameAnswers ts v us w where
  emit f := map_eq_of_forall₂ h fun t u htu => htu.emit f
  emitAll f := by
    have hsame : ∀ t u : Mapping, t.Alike v w u → ((!t.classes.isEmpty) = true ↔ (!u.classes.isEmpty) = true) :=
      fun t u htu => by rw [isEmpty_eq_of_forall₂ htu.classes]
    have hmap := map_eq_of_forall₂ (List.rel_filter hsame h) fun t u htu => htu.emit f
    rw [EmitFormat.emitAll_eq_intercalate, EmitFormat.emitAll_eq_intercalate, hmap]
  mapClass := alike_mapClass h
  mapField := alike_mapField h
  mapMethod := alike_mapMethod h
  mapDescriptor descriptor := by
    have hc : (Remapper.ofSources ts v).mapClass = (Remapper.ofSources us w).mapClass := funext (alike_mapClass h)
    rw [Remapper.mapDescriptor, Remapper.mapDescriptor, hc]
  deobfuscate name := by
    rw [(Index.scans_ofSources ts).deobfuscate, (Index.scans_ofSources us).deobfuscate]
    exact map_search_alike h fun c d hcd => hcd.mapping.names.name
  deobfuscateWithSource name := by
    rw [Index.deobfuscateWithSource_ofSources, Index.deobfuscateWithSource_ofSources]
    exact map_search_alike h fun c d hcd => hcd.sourcedName
  deobfuscateAll name := by
    rw [Index.deobfuscateAll_ofSources, Index.deobfuscateAll_ofSources]
    exact filterMap_search_alike h fun c d hcd => hcd.sourcedName
  obfuscate name := by
    rw [(Index.scans_ofSources ts).obfuscate, (Index.scans_ofSources us).obfuscate]
    exact map_search_alike h fun c d hcd => hcd.mapping.names.resolve
  obfuscateWithSource name := by
    rw [Index.obfuscateWithSource_ofSources, Index.obfuscateWithSource_ofSources]
    exact map_search_alike h fun c d hcd => hcd.sourcedObfuscated
  obfuscateAll name := by
    rw [Index.obfuscateAll_ofSources, Index.obfuscateAll_ofSources]
    exact filterMap_search_alike h fun c d hcd => hcd.sourcedObfuscated
  findAllClasses name := by
    rw [Index.findAllClasses_ofSources, Index.findAllClasses_ofSources, List.map_filterMap,
      List.map_filterMap]
    exact filterMap_search_alike h fun c d hcd => hcd.position
  findClass name := by
    rw [Index.findClass_ofSources, Index.findClass_ofSources]
    exact map_search_alike h fun c d hcd => hcd.position
  findMethod := alike_placeIn (fun _ _ hmn => hmn.names) (fun _ _ hcd => hcd.methods) h
  findField := alike_placeIn (fun _ _ hfg => hfg) (fun _ _ hcd => hcd.fields) h

end alike

end ObfuscationMap
