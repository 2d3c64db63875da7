import ObfuscationMap.Proofs.Index
import ObfuscationMap.ClassName
import Mathlib.Data.List.Forall2

/-!
Mappings that look alike, one at the version `v` and the other at the version `w`: everything stands at the same
place, has the same own and default names and the same name in the version. Aliases may differ
otherwise. Whatever is searched for by name is found at the same place in both.
-/

namespace ObfuscationMap

open List (Forall₂)

section related

variable {α β γ δ : Type} {R : α → β → Prop} {as : List α} {bs : List β} {o : Option α} {p : Option β}

theorem map_eq_of_forall₂ (h : Forall₂ R as bs) {f : α → γ} {g : β → γ} (hfg : ∀ a b, R a b → f a = g b) :
    as.map f = bs.map g := by
  induction h with
  | nil => rfl
  | cons hab _ ih => rw [List.map_cons, List.map_cons, hfg _ _ hab, ih]

theorem isEmpty_eq_of_forall₂ (h : Forall₂ R as bs) : as.isEmpty = bs.isEmpty := by
  cases h with
  | nil => rfl
  | cons _ _ => rfl

theorem forall₂_zipIdx (h : Forall₂ R as bs) (n : Nat) :
    Forall₂ (fun a b => R a.1 b.1 ∧ a.2 = b.2) (as.zipIdx n) (bs.zipIdx n) := by
  induction h generalizing n with
  | nil => exact .nil
  | cons hab _ ih => exact .cons ⟨hab, rfl⟩ (ih (n + 1))

theorem rel_find? (h : Forall₂ R as bs) {f : α → Bool} {g : β → Bool} (hfg : ∀ a b, R a b → f a = g b) :
    Option.Rel R (as.find? f) (bs.find? g) := by
  induction h with
  | nil => exact .none
  | @cons a b _ _ hab _ ih =>
    rw [List.find?_cons, List.find?_cons, hfg a b hab]
    cases g b with
    | true => exact .some hab
    | false => exact ih

theorem rel_or {o' : Option α} {p' : Option β} (h : Option.Rel R o p) (h' : Option.Rel R o' p') :
    Option.Rel R (o.or o') (p.or p') := by
  cases h with
  | some hab => exact .some hab
  | none => exact h'

theorem map_eq_of_rel (h : Option.Rel R o p) {f : α → γ} {g : β → γ} (hfg : ∀ a b, R a b → f a = g b) :
    o.map f = p.map g := by
  cases h with
  | some hab => exact congrArg some (hfg _ _ hab)
  | none => rfl

theorem rel_bind {S : γ → δ → Prop} (h : Option.Rel R o p) {f : α → Option γ} {g : β → Option δ}
    (hfg : ∀ a b, R a b → Option.Rel S (f a) (g b)) : Option.Rel S (o.bind f) (p.bind g) := by
  cases h with
  | some hab => exact hfg _ _ hab
  | none => exact .none

theorem bind_eq_of_rel (h : Option.Rel R o p) {f : α → Option γ} {g : β → Option γ}
    (hfg : ∀ a b, R a b → f a = g b) : o.bind f = p.bind g := by
  cases h with
  | some hab => exact hfg _ _ hab
  | none => rfl

theorem filterMap_eq_of_forall₂ (h : Forall₂ R as bs) {f : α → Option γ} {g : β → Option γ}
    (hfg : ∀ a b, R a b → f a = g b) : as.filterMap f = bs.filterMap g := by
  induction h with
  | nil => rfl
  | cons hab _ ih => rw [List.filterMap_cons, List.filterMap_cons, hfg _ _ hab, ih]

end related

variable {v w : Version}

structure Renaming.Alike (v w : Version) (r s : Renaming) : Prop where
  name : r.name = s.name
  obfuscated : r.obfuscated = s.obfuscated
  nameIn? : r.nameIn? v = s.nameIn? w

theorem Renaming.Alike.resolve {r s : Renaming} (h : r.Alike v w s) : r.resolve v = s.resolve w := by
  rw [Renaming.resolve, Renaming.resolve, h.nameIn?, h.obfuscated]

structure MethodMapping.Alike (v w : Version) (m n : MethodMapping) : Prop where
  names : m.toRenaming.Alike v w n.toRenaming
  parameters : m.parameters = n.parameters

structure ClassMapping.Alike (v w : Version) (c d : ClassMapping) : Prop where
  names : c.toRenaming.Alike v w d.toRenaming
  methods : Forall₂ (MethodMapping.Alike v w) c.methods d.methods
  fields : Forall₂ (fun f g => f.toRenaming.Alike v w g.toRenaming) c.fields d.fields

structure Mapping.Alike (v w : Version) (t u : Mapping) : Prop where
  package : t.package = u.package
  classes : Forall₂ (ClassMapping.Alike v w) t.classes u.classes

structure SourcedClass.Alike (v w : Version) (c d : SourcedClass) : Prop where
  source : c.source = d.source
  place : c.place = d.place
  mapping : c.mapping.Alike v w d.mapping

section classes

variable {t u : Mapping} {ts us : List Mapping}

theorem Mapping.Alike.fullName (h : t.Alike v w u) {c d : ClassMapping} (hc : c.Alike v w d) :
    t.fullName c = u.fullName d := by
  rw [Mapping.fullName, Mapping.fullName, h.package, hc.names.name]

theorem Mapping.Alike.obfuscatedFullName (h : t.Alike v w u) {c d : ClassMapping}
    (hc : c.Alike v w d) : t.obfuscatedFullName c v = u.obfuscatedFullName d w := by
  rw [Mapping.obfuscatedFullName, Mapping.obfuscatedFullName, h.package, hc.names.resolve]

theorem Mapping.Alike.sourced (h : t.Alike v w u) (n : Nat) :
    Forall₂ (SourcedClass.Alike v w) (t.sourced n) (u.sourced n) :=
  List.rel_map (fun _ _ hc => ⟨rfl, hc.2, hc.1⟩) (forall₂_zipIdx h.classes 0)

theorem alike_outermost (h : Forall₂ (Mapping.Alike v w) ts us) :
    Forall₂ (SourcedClass.Alike v w) (outermost ts) (outermost us) := by
  refine List.rel_flatMap (forall₂_zipIdx h 0) ?_
  rintro ⟨t, n⟩ ⟨u, _⟩ ⟨htu, rfl⟩
  exact htu.sourced n

end classes

theorem Renaming.Alike.nameOf? {r s : Renaming} (h : r.Alike v w s) (k : NameKind) :
    r.nameOf? v k = s.nameOf? w k := by
  cases k with
  | own => exact congrArg some h.name
  | default => exact congrArg some h.obfuscated
  | versioned => exact h.nameIn?

section search

variable {α : Type} {names : α → Renaming} {R : α → α → Prop} {as bs : List α}

theorem rel_search (hR : ∀ a b, R a b → (names a).Alike v w (names b)) (h : Forall₂ R as bs)
    (name : String) (ks : List NameKind) :
    Option.Rel R (search names as name v ks) (search names bs name w ks) := by
  induction ks with
  | nil => exact .none
  | cons k ks ih =>
    rw [search_cons, search_cons]
    refine rel_or (rel_find? h fun a b hab => ?_) ih
    rw [(hR a b hab).nameOf? k]

theorem rel_findMember (hR : ∀ a b, R a b → (names a).Alike v w (names b)) (h : Forall₂ R as bs)
    (name : String) : Option.Rel R (findMember names as name v) (findMember names bs name w) := by
  rw [findMember_eq_search, findMember_eq_search]
  exact rel_search hR h name _

theorem rel_searchClass {cs ds : List SourcedClass} (h : Forall₂ (SourcedClass.Alike v w) cs ds)
    (name : String) (ks : List NameKind) : Option.Rel (SourcedClass.Alike v w)
      (search SourcedClass.names cs name v ks) (search SourcedClass.names ds name w ks) :=
  rel_search (fun _ _ hcd => hcd.mapping.names) h name ks

end search

end ObfuscationMap
