import ObfuscationMap.Proofs.Index.Inverse
import ObfuscationMap.Proofs.RoundTrip
import ObfuscationMap.Proofs.Versions.Answers

/-!
Names of members that the remapper has no mapping for. Those of unknown classes stay as they are. In a known
class a name that no member has for its own stays too, but for one case: it is the default name of a member,
nothing has it in the version, and the version calls that member otherwise. Such a name becomes the other one.
-/

namespace ObfuscationMap

section members

variable {α : Type} {names : α → Renaming} {ms : List α} {name other : String} {v : Version}

/-- The name at the version of the member that a search by name leads to, or the name itself. -/
def renameMember (names : α → Renaming) (ms : List α) (name : String) (v : Version) : String :=
  ((findMember names ms name v).map fun m => (names m).resolve v).getD name

/-- Nothing has the name in the version, and the first member that has it by default is called otherwise
there. -/
structure Displaced (names : α → Renaming) (ms : List α) (name : String) (v : Version) (other : String) :
    Prop where
  unversioned : ∀ m ∈ ms, (names m).nameIn? v ≠ some name
  byDefault : ∃ m, First (fun m => (names m).obfuscated = name) ms m ∧ (names m).nameIn? v = some other

theorem Displaced.ne (h : Displaced names ms name v other) : other ≠ name := by
  obtain ⟨m, hm, hv⟩ := h.byDefault
  rintro rfl
  exact h.unversioned m hm.mem hv

theorem findMember_unmapped (hown : ∀ m ∈ ms, (names m).name ≠ name) :
    findMember names ms name v = (searchKind names ms name v .versioned).or
      (searchKind names ms name v .default) := by
  have hnone : searchKind names ms name v .own = none := by
    refine List.find?_eq_none.mpr fun m hm hp => hown m hm ?_
    exact Option.some.inj (beq_iff_eq.mp hp)
  rw [findMember_eq_search, search_cons, hnone, Option.none_or, search_cons, search_cons, search_nil,
    Option.or_none]

theorem searchKind_default_iff {m : α} : searchKind names ms name v .default = some m ↔
    First (fun m => (names m).obfuscated = name) ms m :=
  find?_eq_some_iff_first fun _ => beq_iff_eq.trans (Option.some_inj)

theorem renameMember_displaced (hown : ∀ m ∈ ms, (names m).name ≠ name)
    (h : Displaced names ms name v other) : renameMember names ms name v = other := by
  obtain ⟨m, hm, hv⟩ := h.byDefault
  have hversioned : searchKind names ms name v .versioned = none :=
    List.find?_eq_none.mpr fun m hm hp => h.unversioned m hm (beq_iff_eq.mp hp)
  rw [renameMember, findMember_unmapped hown, hversioned, Option.none_or, searchKind_default_iff.mpr hm]
  exact Renaming.resolve_of_nameIn hv

theorem renameMember_kept (hown : ∀ m ∈ ms, (names m).name ≠ name)
    (h : ∀ other, ¬ Displaced names ms name v other) : renameMember names ms name v = name := by
  rw [renameMember, findMember_unmapped hown]
  cases hversioned : searchKind names ms name v .versioned with
  | some m =>
    have hv := List.find?_some hversioned
    exact Renaming.resolve_of_nameIn (beq_iff_eq.mp hv)
  | none =>
    rw [Option.none_or]
    cases hdefault : searchKind names ms name v .default with
    | none => rfl
    | some m =>
      have hm := searchKind_default_iff.mp hdefault
      have hv : (names m).nameIn? v = none := by
        rw [Option.eq_none_iff_forall_ne_some]
        intro other hv
        refine h other ⟨fun m hm hv => ?_, m, hm, hv⟩
        exact List.find?_eq_none.mp hversioned m hm (beq_iff_eq.mpr hv)
      exact (Renaming.resolve_default hv).trans hm.1

structure Unmapped (names : α → Renaming) (ms : List α) (name : String) (v : Version) (result : String) :
    Prop where
  kept_iff : result = name ↔ ∀ other, ¬ Displaced names ms name v other
  displaced : ∀ other, Displaced names ms name v other → result = other

theorem unmapped_renameMember (hown : ∀ m ∈ ms, (names m).name ≠ name) :
    Unmapped names ms name v (renameMember names ms name v) where
  kept_iff := by
    refine ⟨fun hr other h => h.ne ?_, renameMember_kept hown⟩
    rw [← renameMember_displaced hown h, hr]
  displaced _ := renameMember_displaced hown

end members

namespace Remapper

theorem classes_ofSession (s : Session) (owner : String) : (ofSession s).classes[owner]? =
    (ownedClasses s.index.sources).find? fun c => address c == owner :=
  classes_ofSources s.index.sources s.version owner

theorem findOverload_eq_none {c : ClassMapping} {name : String} (h : ∀ m ∈ c.methods, m.name ≠ name)
    (descriptor : String) : findOverload c name descriptor = none := by
  rw [findOverload, Option.bind_eq_none_iff]
  intro part _
  refine List.find?_eq_none.mpr fun m hm hp => h m hm ?_
  rw [Bool.and_eq_true, beq_iff_eq] at hp
  exact hp.1

section known

variable {s : Session} {c : OwnedClass} {owner name : String}

theorem classes_ofSession_known (hc : First (fun c => address c = owner) (ownedClasses s.index.sources) c) :
    (ofSession s).classes[owner]? = some c := by
  rw [classes_ofSession, find?_eq_some_iff_first fun _ => beq_iff_eq]
  exact hc

theorem mapField_known (hc : First (fun c => address c = owner) (ownedClasses s.index.sources) c) :
    (ofSession s).mapField owner name =
      renameMember (·.toRenaming) c.mapping.fields name s.version := by
  rw [mapField_eq, classes_ofSession_known hc, Option.bind_some]
  rfl

theorem mapMethod_known (hc : First (fun c => address c = owner) (ownedClasses s.index.sources) c)
    (hown : ∀ m ∈ c.mapping.methods, m.name ≠ name) (descriptor : String) :
    (ofSession s).mapMethod owner name descriptor =
      renameMember (·.toRenaming) c.mapping.methods name s.version := by
  rw [mapMethod_eq, classes_ofSession_known hc, Option.bind_some, findOverload_eq_none hown, Option.none_or]
  rfl

end known

/-- Members of unknown classes keep their names. Those of a known one that no member has for its own are kept
too, unless they are displaced. -/
theorem mapMember_unmapped (s : Session) (owner name descriptor : String) :
    let r := ofSession s
    ((∀ c ∈ ownedClasses s.index.sources, address c ≠ owner) →
      r.mapField owner name = name ∧ r.mapMethod owner name descriptor = name) ∧
    ∀ c, First (fun c => address c = owner) (ownedClasses s.index.sources) c →
      ((∀ f ∈ c.mapping.fields, f.name ≠ name) →
        Unmapped (·.toRenaming) c.mapping.fields name s.version (r.mapField owner name)) ∧
      ((∀ m ∈ c.mapping.methods, m.name ≠ name) →
        Unmapped (·.toRenaming) c.mapping.methods name s.version (r.mapMethod owner name descriptor)) := by
  intro r
  constructor
  · intro h
    have hnone : r.classes[owner]? = none := by
      rw [classes_ofSession, find?_eq_none_iff_not fun _ => beq_iff_eq]
      exact h
    rw [mapField_eq, mapMethod_eq, hnone]
    exact ⟨rfl, rfl⟩
  · intro c hc
    constructor
    · intro hown
      rw [mapField_known hc]
      exact unmapped_renameMember hown
    · intro hown
      rw [mapMethod_known hc hown]
      exact unmapped_renameMember hown

theorem mapMember_unmapped_alias :
    let c : ClassMapping := ⟨⟨"A", "a", []⟩, .empty, [], [⟨⟨"x", "g", [.live "v" "h" .empty]⟩, .empty⟩], []⟩
    let s : Session := (Session.ofSources [⟨"p", .empty, [c]⟩]).withVersion (some "v")
    (∀ f ∈ c.fields, f.name ≠ "h") ∧ (ofSession s).mapField "p/A" "h" = "h" ∧
      (∀ c ∈ ownedClasses s.index.sources, address c ≠ "A") ∧ (ofSession s).mapField "A" "x" = "x" := by
  intro c s
  let owned : OwnedClass := ⟨⟨"p", .empty, [c]⟩, c⟩
  have haddress : address owned = "p/A" := by cbv
  have hknown : First (fun c => address c = "p/A") (ownedClasses s.index.sources) owned := .head haddress
  have hunknown : ∀ c ∈ ownedClasses s.index.sources, address c ≠ "A" := by
    intro d hd
    obtain rfl : d = owned := List.mem_singleton.mp hd
    rw [haddress]
    decide
  have hown : ∀ f ∈ c.fields, f.name ≠ "h" := by decide
  have hkept := (((mapMember_unmapped s "p/A" "h" "").2 owned hknown).1 hown).kept_iff.mpr fun other hd =>
    hd.unversioned _ List.mem_cons_self rfl
  exact ⟨hown, hkept, hunknown, ((mapMember_unmapped s "A" "x" "").1 hunknown).1⟩

/-- Neither name is one that a member has for its own, but both are default names of members that the version
calls otherwise. -/
theorem displaced_renamed : ∃ t c,
    compile ("class A <- a \x7b md y() <- k \x7b aliases \x7b v l; \x7d \x7d " ++
      "fd x <- g \x7b aliases \x7b v h; \x7d \x7d \x7d") = .ok t ∧
      t.classes = [c] ∧ internalName (t.fullName c) = "A" ∧
      (∀ f ∈ c.fields, f.name ≠ "g") ∧ (ofSources [t] (some "v")).mapField "A" "g" = "h" ∧
      (∀ m ∈ c.methods, m.name ≠ "k") ∧ (ofSources [t] (some "v")).mapMethod "A" "k" "()V" = "l" := by
  let f : FieldDecl := ⟨"x", some "g", [.live "v" "h" .empty], .empty⟩
  let m : MethodDecl := ⟨"y", [], some "k", none, [.live "v" "l" .empty], .empty⟩
  let d : ClassDecl := ⟨"A", some "a", .empty, [m], [f], [], []⟩
  let s : Script := ⟨none, [], [d]⟩
  have ht : compile ("class A <- a \x7b md y() <- k \x7b aliases \x7b v l; \x7d \x7d " ++
      "fd x <- g \x7b aliases \x7b v h; \x7d \x7d \x7d") = .ok s.resolve :=
    compile_of_symbols (by cbv) (by decide) (by cbv)
  let c := d.resolve .empty
  have haddress : address ⟨s.resolve, c⟩ = "A" := by cbv
  have hc : First (fun c => address c = "A") (ownedClasses [s.resolve]) ⟨s.resolve, c⟩ := .head haddress
  have hfields : ∀ f ∈ c.fields, f.name ≠ "g" := by decide
  have hfield : Displaced (·.toRenaming) c.fields "g" (some "v") "h" := ⟨by decide, _, .head rfl, rfl⟩
  have hmethods : ∀ m ∈ c.methods, m.name ≠ "k" := by decide
  have hmethod : Displaced (·.toRenaming) c.methods "k" (some "v") "l" := ⟨by decide, _, .head rfl, rfl⟩
  exact ⟨s.resolve, c, ht, rfl, haddress, hfields,
    (mapField_known hc).trans (renameMember_displaced hfields hfield), hmethods,
    (mapMethod_known hc hmethods _).trans (renameMember_displaced hmethods hmethod)⟩

end Remapper
end ObfuscationMap
