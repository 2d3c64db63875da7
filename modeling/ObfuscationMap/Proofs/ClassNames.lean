import ObfuscationMap.Compilation
import ObfuscationMap.ClassName
import ObfuscationMap.Proofs.Validation
import ObfuscationMap.Proofs.RoundTrip

/-!
Full names of the classes of a clean mapping. Own names are all put into the package, so they stay
different. Of the obfuscated names only those without a dot are, and one of these may meet a name that was
given with its package.
-/

namespace ObfuscationMap

theorem qualify_injective (package : String) : Function.Injective (qualify package) := by
  intro a b h
  unfold qualify at h
  split at h
  · exact h
  · exact String.append_right_inj _ |>.mp h

theorem qualify_eq_iff {package name full : String} (hn : name ≠ full) :
    qualify package name = full ↔ package ≠ "" ∧ full = package ++ "." ++ name := by
  unfold qualify
  split
  · next h => simp [h, hn]
  · next h => simp [h, eq_comm]

namespace Mapping

/-- In full the default name of the first class is what the second one declares, package and all. -/
def Overlaps (t : Mapping) (c d : ClassMapping) : Prop :=
  t.package ≠ "" ∧ '.' ∉ c.obfuscated.toList ∧ d.obfuscated = t.package ++ "." ++ c.obfuscated

theorem obfuscatedFullName_none (t : Mapping) (c : ClassMapping) : t.obfuscatedFullName c none =
    if '.' ∈ c.obfuscated.toList then c.obfuscated else qualify t.package c.obfuscated := rfl

theorem Overlaps.dotted {t : Mapping} {c d : ClassMapping} (h : t.Overlaps c d) :
    '.' ∈ d.obfuscated.toList := by
  rw [h.2.2]
  simp

theorem obfuscatedFullName_eq_iff {t : Mapping} {c d : ClassMapping} (h : c.obfuscated ≠ d.obfuscated) :
    t.obfuscatedFullName c none = t.obfuscatedFullName d none ↔ t.Overlaps c d ∨ t.Overlaps d c := by
  rw [obfuscatedFullName_none, obfuscatedFullName_none]
  by_cases hc : '.' ∈ c.obfuscated.toList
  · by_cases hd : '.' ∈ d.obfuscated.toList
    · rw [if_pos hc, if_pos hd]
      simp [Overlaps, hc, hd, h]
    · rw [if_pos hc, if_neg hd, eq_comm, qualify_eq_iff h.symm]
      simp [Overlaps, hc, hd]
  · by_cases hd : '.' ∈ d.obfuscated.toList
    · rw [if_neg hc, if_pos hd, qualify_eq_iff h]
      simp [Overlaps, hc, hd]
    · rw [if_neg hc, if_neg hd, (qualify_injective _).eq_iff]
      exact iff_of_false h fun ho => ho.elim (fun h => hd h.dotted) fun h => hc h.dotted

theorem fullName_injective {t : Mapping} {c d : ClassMapping} (h : t.fullName c = t.fullName d) :
    c.name = d.name := qualify_injective _ h

theorem Clean.distinct {t : Mapping} (h : t.Clean) {i j : Nat} {c d : ClassMapping}
    (hi : t.classes[i]? = some c) (hj : t.classes[j]? = some d) (hne : i ≠ j) :
    c.name ≠ d.name ∧ c.obfuscated ≠ d.obfuscated := by
  have apart : ∀ f : ClassMapping → String, (t.classes.map f).Nodup → f c ≠ f d := by
    intro f hn he
    have hfi : (t.classes.map f)[i]? = some (f c) := by rw [List.getElem?_map, hi]; rfl
    have hfj : (t.classes.map f)[j]? = some (f c) := by rw [List.getElem?_map, hj, he]; rfl
    obtain ⟨hlt, -⟩ := List.getElem?_eq_some_iff.mp hfi
    exact hne ((List.getElem?_inj hlt hn).mp (hfi.trans hfj.symm))
  exact ⟨apart _ h.names, apart _ h.obfuscated⟩

theorem fullNames_of_validate {t : Mapping} (h : t.validate = []) {i j : Nat} {c d : ClassMapping}
    (hi : t.classes[i]? = some c) (hj : t.classes[j]? = some d) (hne : i ≠ j) :
    t.fullName c ≠ t.fullName d ∧
      (t.obfuscatedFullName c none = t.obfuscatedFullName d none ↔ t.Overlaps c d ∨ t.Overlaps d c) := by
  obtain ⟨hn, ho⟩ := (validate_eq_nil_iff.mp h).distinct hi hj hne
  exact ⟨fun he => hn (fullName_injective he), obfuscatedFullName_eq_iff ho⟩

theorem fullNames_of_validate_meeting :
    let c : ClassMapping := ⟨⟨"A", "a.b", []⟩, .empty, [], [], []⟩
    let d : ClassMapping := ⟨⟨"B", "b", []⟩, .empty, [], [], []⟩
    let t : Mapping := ⟨"a", .empty, [c, d]⟩
    (t.validate = [] ∧ t.classes[0]? = some c ∧ t.classes[1]? = some d ∧ 0 ≠ 1) ∧
      t.fullName c ≠ t.fullName d ∧
      (t.obfuscatedFullName c none = t.obfuscatedFullName d none ↔ t.Overlaps c d ∨ t.Overlaps d c) := by
  intro c d t
  have hv : t.validate = [] := by decide
  exact ⟨⟨hv, rfl, rfl, Nat.zero_ne_one⟩, fullNames_of_validate hv rfl rfl Nat.zero_ne_one⟩

theorem clean_names_meet : ∃ t c d,
    compile "pkg a; class A <- a.b \x7b \x7d class B <- b \x7b \x7d" = .ok t ∧ t.validate = [] ∧
      t.classes[0]? = some c ∧ t.classes[1]? = some d ∧
      t.obfuscatedFullName c none = t.obfuscatedFullName d none := by
  let a : ClassDecl := .ofHeader "A" (some "a.b") .empty
  let b : ClassDecl := .ofHeader "B" (some "b") .empty
  let s : Script := ⟨some "a", [], [a, b]⟩
  refine ⟨s.resolve, a.resolve .empty, b.resolve .empty, ?_, ?_, rfl, rfl, ?_⟩
  · exact compile_of_symbols (by cbv) (by decide) (by cbv)
  · decide
  · decide

end Mapping
end ObfuscationMap
