import ObfuscationMap.Mapping.Validation
import Mathlib.Data.List.Nodup

/-!
When a mapping has no problems. The checks go through each list once and keep the keys they have seen, so
a list is clean if its keys are fresh: none stands in it twice, and none was seen before.
-/

namespace ObfuscationMap

def Fresh (seen keys : List String) : Prop := keys.Nodup ∧ ∀ k ∈ keys, k ∉ seen

theorem fresh_nil (seen : List String) : Fresh seen [] := ⟨List.nodup_nil, List.forall_mem_nil _⟩

theorem fresh_start {keys : List String} : Fresh [] keys ↔ keys.Nodup := by simp [Fresh]

theorem fresh_cons {seen keys : List String} {k : String} :
    Fresh seen (k :: keys) ↔ k ∉ seen ∧ Fresh (k :: seen) keys := by
  unfold Fresh
  rw [List.nodup_cons, List.forall_mem_cons]
  simp only [List.mem_cons, not_or]
  constructor
  · rintro ⟨⟨hk, hn⟩, hs, hf⟩
    refine ⟨hs, hn, fun j hj => ⟨?_, hf j hj⟩⟩
    rintro rfl
    exact hk hj
  · rintro ⟨hs, hn, hf⟩
    exact ⟨⟨fun hk => (hf k hk).1 rfl, hn⟩, hs, fun j hj => (hf j hj).2⟩

theorem reportIf_eq_nil_iff {key : String} {seen : List String} {problem : Problem} :
    reportIf key seen problem = [] ↔ key ∉ seen := by
  rw [reportIf]
  split <;> simp_all

theorem versionProblems_eq_nil_iff {owner : AliasOwner} {seen : List String} {as : List Alias} :
    versionProblems owner seen as = [] ↔ Fresh seen (as.map (·.version)) := by
  induction as generalizing seen with
  | nil => exact iff_of_true rfl (fresh_nil seen)
  | cons a as ih =>
    rw [versionProblems, List.append_eq_nil_iff, reportIf_eq_nil_iff, ih, List.map_cons, fresh_cons]

theorem methodProblems_eq_nil_iff {c : String} {signatures obfuscated : List String}
    {ms : List MethodMapping} : methodProblems c signatures obfuscated ms = [] ↔
      Fresh signatures (ms.map (·.signature)) ∧ Fresh obfuscated (ms.map (·.obfuscated)) ∧
        ∀ m ∈ ms, (m.aliases.map (·.version)).Nodup := by
  induction ms generalizing signatures obfuscated with
  | nil => exact iff_of_true rfl ⟨fresh_nil _, fresh_nil _, List.forall_mem_nil _⟩
  | cons m ms ih =>
    simp only [methodProblems, List.append_eq_nil_iff, reportIf_eq_nil_iff, versionProblems_eq_nil_iff,
      fresh_start, ih, List.map_cons, fresh_cons, List.forall_mem_cons]
    tauto

theorem fieldProblems_eq_nil_iff {c : String} {names obfuscated : List String}
    {fs : List FieldMapping} : fieldProblems c names obfuscated fs = [] ↔
      Fresh names (fs.map (·.name)) ∧ Fresh obfuscated (fs.map (·.obfuscated)) ∧
        ∀ f ∈ fs, (f.aliases.map (·.version)).Nodup := by
  induction fs generalizing names obfuscated with
  | nil => exact iff_of_true rfl ⟨fresh_nil _, fresh_nil _, List.forall_mem_nil _⟩
  | cons f fs ih =>
    simp only [fieldProblems, List.append_eq_nil_iff, reportIf_eq_nil_iff, versionProblems_eq_nil_iff,
      fresh_start, ih, List.map_cons, fresh_cons, List.forall_mem_cons]
    tauto

structure ClassMapping.Clean (c : ClassMapping) : Prop where
  versions : (c.aliases.map (·.version)).Nodup
  signatures : (c.methods.map (·.signature)).Nodup
  obfuscatedMethods : (c.methods.map (·.obfuscated)).Nodup
  methodVersions : ∀ m ∈ c.methods, (m.aliases.map (·.version)).Nodup
  fields : (c.fields.map (·.name)).Nodup
  obfuscatedFields : (c.fields.map (·.obfuscated)).Nodup
  fieldVersions : ∀ f ∈ c.fields, (f.aliases.map (·.version)).Nodup

theorem ClassMapping.problems_eq_nil_iff {c : ClassMapping} : c.problems = [] ↔ c.Clean := by
  simp only [problems, List.append_eq_nil_iff, versionProblems_eq_nil_iff, methodProblems_eq_nil_iff,
    fieldProblems_eq_nil_iff, fresh_start]
  constructor
  · rintro ⟨⟨hv, hs, ho, hm⟩, hf, hp, hfv⟩
    exact ⟨hv, hs, ho, hm, hf, hp, hfv⟩
  · intro h
    exact ⟨⟨h.versions, h.signatures, h.obfuscatedMethods, h.methodVersions⟩, h.fields,
      h.obfuscatedFields, h.fieldVersions⟩

theorem classProblems_eq_nil_iff {names obfuscated : List String} {cs : List ClassMapping} :
    classProblems names obfuscated cs = [] ↔ Fresh names (cs.map (·.name)) ∧
      Fresh obfuscated (cs.map (·.obfuscated)) ∧ ∀ c ∈ cs, c.Clean := by
  induction cs generalizing names obfuscated with
  | nil => exact iff_of_true rfl ⟨fresh_nil _, fresh_nil _, List.forall_mem_nil _⟩
  | cons c cs ih =>
    simp only [classProblems, List.append_eq_nil_iff, reportIf_eq_nil_iff,
      ClassMapping.problems_eq_nil_iff, ih, List.map_cons, fresh_cons, List.forall_mem_cons]
    tauto

structure Mapping.Clean (t : Mapping) : Prop where
  names : (t.classes.map (·.name)).Nodup
  obfuscated : (t.classes.map (·.obfuscated)).Nodup
  classes : ∀ c ∈ t.classes, c.Clean

theorem Mapping.validate_eq_nil_iff {t : Mapping} : t.validate = [] ↔ t.Clean := by
  rw [validate, validateClasses, classProblems_eq_nil_iff, fresh_start, fresh_start]
  exact ⟨fun ⟨hn, ho, hc⟩ => ⟨hn, ho, hc⟩, fun h => ⟨h.names, h.obfuscated, h.classes⟩⟩

end ObfuscationMap
