import ObfuscationMap.Proofs.Remapping
import ObfuscationMap.Proofs.Remapping.Package
import ObfuscationMap.Proofs.Remapping.Unmapped
import Mathlib.Data.Set.Function

/-!
Overloads of a method. A descriptor is read up to the end of its parameters, and as the parameters of no method
begin those of another one, what is found is the first method of the name with exactly these parameters. Where
there is none, the search by name decides.
-/

namespace ObfuscationMap

def descriptorWith (ps : List Parameter) (result : String) : String :=
  "(" ++ String.join (ps.map (·.descriptor)) ++ ")" ++ result

theorem toList_descriptorWith (ps : List Parameter) (result : String) :
    (descriptorWith ps result).toList = '(' :: (typesText ps ++ ')' :: result.toList) := by
  simp [descriptorWith, typesText, String.toList_join, List.flatMap_map]

theorem methodDescriptor_injOn : Set.InjOn methodDescriptor {ps | ∀ p ∈ ps, isQualified p.type} := by
  intro ps hp qs hq h
  have hprefix := (parameters_prefix_iff hp hp).mpr rfl
  rw [h] at hprefix
  exact (parameters_prefix_iff hp hq).mp hprefix

def MethodMapping.IsOverload (name : String) (ps : List Parameter) (m : MethodMapping) : Prop :=
  m.name = name ∧ m.parameters = ps

instance (name : String) (ps : List Parameter) (m : MethodMapping) : Decidable (m.IsOverload name ps) :=
  inferInstanceAs (Decidable (m.name = name ∧ m.parameters = ps))

theorem MethodMapping.isOverload_iff {name : String} {ps : List Parameter} {m : MethodMapping} :
    (m.name == name && m.parameters == ps) = true ↔ m.IsOverload name ps := by
  rw [Bool.and_eq_true, beq_iff_eq, beq_iff_eq, IsOverload]

namespace Remapper

section overload

variable {c : ClassMapping} (hl : ∀ m ∈ c.methods, m.Legal) {ps : List Parameter}
  (hp : ∀ p ∈ ps, isQualified p.type) (name result : String)
include hl hp

theorem findOverload_eq_some_iff {m : MethodMapping} :
    findOverload c name (descriptorWith ps result) = some m ↔ First (·.IsOverload name ps) c.methods m := by
  rw [findOverload_types hl hp (toList_descriptorWith ps result)]
  exact find?_eq_some_iff_first fun _ => MethodMapping.isOverload_iff

theorem findOverload_eq_none_iff :
    findOverload c name (descriptorWith ps result) = none ↔ ∀ m ∈ c.methods, ¬ m.IsOverload name ps := by
  rw [findOverload_types hl hp (toList_descriptorWith ps result)]
  exact find?_eq_none_iff_not fun _ => MethodMapping.isOverload_iff

end overload

/-- How the methods of one name are told apart in a class. -/
structure ByParameters (r : Remapper) (owner : String) (c : ClassMapping) (name : String)
    (ps : List Parameter) (result : String) : Prop where
  first : ∀ m, First (·.IsOverload name ps) c.methods m →
    r.mapMethod owner name (descriptorWith ps result) = m.resolve r.version
  otherwise : (∀ m ∈ c.methods, ¬ m.IsOverload name ps) →
    r.mapMethod owner name (descriptorWith ps result) =
      ((c.findMethod name r.version).map fun m => m.resolve r.version).getD name

theorem byParameters {r : Remapper} {owner : String} {c : OwnedClass} (hc : r.classes[owner]? = some c)
    (hl : ∀ m ∈ c.mapping.methods, m.Legal) {ps : List Parameter} (hp : ∀ p ∈ ps, isQualified p.type)
    (name result : String) : ByParameters r owner c.mapping name ps result where
  first m hm := by
    rw [mapMethod_eq, hc, Option.bind_some, (findOverload_eq_some_iff hl hp name result).mpr hm]
    rfl
  otherwise hm := by
    rw [mapMethod_eq, hc, Option.bind_some, (findOverload_eq_none_iff hl hp name result).mpr hm,
      Option.none_or]

/-- Distinct lists of parameters have distinct descriptors, and a known class of compiled sources has its methods
told apart by them, whatever the result is. -/
theorem mapMethod_overloads :
    Set.InjOn methodDescriptor {ps | ∀ p ∈ ps, isQualified p.type} ∧
    ∀ (sources : List String) (ts : List Mapping), sources.map compile = ts.map .ok →
      ∀ (owner : String) (c : OwnedClass), First (fun c => address c = owner) (ownedClasses ts) c →
      ∀ (name : String) (ps : List Parameter), (∀ p ∈ ps, isQualified p.type) →
      ∀ (result : String) (v : Version), ByParameters (ofSources ts v) owner c.mapping name ps result := by
  refine ⟨methodDescriptor_injOn, fun sources ts hcompile owner c hc name ps hp result v => ?_⟩
  have hknown : (ofSources ts v).classes[owner]? = some c := classes_ofSession_known hc
  obtain ⟨howner, hmem⟩ := mem_ownedClasses hc.mem
  obtain ⟨-, -, -, hmethods, -⟩ := (legal_of_compile_all hcompile _ howner).classes _ hmem
  exact byParameters hknown hmethods hp name result

theorem mapMethod_overloads_letter :
    let source : String :=
      "class A\x7bmd f(I) <- a\x7baliases\x7bv b;\x7d\x7dmd f(int) <- c;md f(int...) <- d;\x7d"
    ∃ t c, compile source = .ok t ∧ First (fun c => address c = "A") (ownedClasses [t]) c ∧
      (∃ m, First (·.IsOverload "f" [⟨"int", true⟩]) c.mapping.methods m) ∧
      (∀ m ∈ c.mapping.methods, ¬ m.IsOverload "f" [⟨"long", false⟩]) ∧
      let r := ofSources [t] (some "v")
      r.mapMethod "A" "f" "([I)V" = "d" ∧ r.mapMethod "A" "f" "(J)V" = "b" := by
  intro source
  let f : MethodDecl := ⟨"f", [⟨"I", false⟩], some "a", none, [.live "v" "b" .empty], .empty⟩
  let g : MethodDecl := ⟨"f", [⟨"int", false⟩], some "c", none, [], .empty⟩
  let h : MethodDecl := ⟨"f", [⟨"int", true⟩], some "d", none, [], .empty⟩
  let d : ClassDecl := ⟨"A", none, .empty, [f, g, h], [], [], []⟩
  let s : Script := ⟨none, [], [d]⟩
  have ht : compile source = .ok s.resolve := compile_of_symbols (by unfold source; cbv) (by decide) (by cbv)
  let c : OwnedClass := ⟨s.resolve, d.resolve .empty⟩
  have haddress : address c = "A" := by cbv
  have hc : First (fun c => address c = "A") (ownedClasses [s.resolve]) c := .head haddress
  have hsources : [source].map compile = [s.resolve].map .ok := by
    rw [List.map_singleton, List.map_singleton, ht]
  have hints : First (·.IsOverload "f" [⟨"int", true⟩]) c.mapping.methods (h.resolve .empty) :=
    ⟨⟨rfl, rfl⟩, [f.resolve .empty, g.resolve .empty], [], rfl, by decide⟩
  have hlong : ∀ m ∈ c.mapping.methods, ¬ m.IsOverload "f" [⟨"long", false⟩] := by decide
  have told := fun p (hp : ∀ q ∈ [p], isQualified q.type) =>
    mapMethod_overloads.2 [source] [s.resolve] hsources "A" c hc "f" [p] hp "V" (some "v")
  have hfound := (told ⟨"int", true⟩ (by decide)).first _ hints
  have hsearched := (told ⟨"long", false⟩ (by decide)).otherwise hlong
  exact ⟨s.resolve, c, ht, hc, ⟨_, hints⟩, hlong, hfound, hsearched⟩

end Remapper
end ObfuscationMap
