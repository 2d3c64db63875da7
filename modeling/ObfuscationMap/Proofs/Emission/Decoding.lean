import ObfuscationMap.Proofs.Emission.Proguard
import ObfuscationMap.Proofs.Emission.Srg
import ObfuscationMap.Proofs.RoundTrip

/-!
Both formats keep all that they tell of a mapping. Each text depends on the entries only and gives them
back, in the line format with slashes, so two mappings with equal texts in one format have equal texts in
the other.
-/

namespace ObfuscationMap

variable {t t' : Mapping} {v v' : Version}

theorem Proguard.emit_congr (h : t.entries v = t'.entries v') :
    Proguard.emit t v = Proguard.emit t' v' := by
  apply String.toList_injective
  rw [Proguard.toList_emit, Proguard.toList_emit, h]

theorem Srg.emit_congr (h : t.entries v = t'.entries v') : Srg.emit t v = Srg.emit t' v' := by
  apply String.toList_injective
  rw [Srg.toList_emit, Srg.toList_emit, h]

theorem slashed_injective {es es' : List ClassEntry} (he : ∀ e ∈ es, e.Legal) (he' : ∀ e ∈ es', e.Legal)
    (h : es.map (·.rename internalName) = es'.map (·.rename internalName)) : es = es' := by
  have hback : ∀ name, isQualified name → dottedName (internalName name) = name :=
    fun _ => dottedName_internalName
  calc
    es = (es.map (·.rename internalName)).map (·.rename dottedName) :=
      (map_map_eq_self fun e hm => (he e hm).rename_rename hback).symm
    _ = (es'.map (·.rename internalName)).map (·.rename dottedName) := by rw [h]
    _ = es' := map_map_eq_self fun e hm => (he' e hm).rename_rename hback

theorem emit_eq_iff (ht : t.Legal) (ht' : t'.Legal) :
    Proguard.emit t v = Proguard.emit t' v' ↔ Srg.emit t v = Srg.emit t' v' := by
  constructor
  · intro h
    apply Srg.emit_congr
    have hd := Proguard.decode_emit ht v
    rw [h, Proguard.decode_emit ht' v'] at hd
    exact (Option.some.inj hd).symm
  · intro h
    apply Proguard.emit_congr
    have hd := Srg.decode_emit ht v
    rw [h, Srg.decode_emit ht' v'] at hd
    exact slashed_injective (legal_entries ht v) (legal_entries ht' v') (Option.some.inj hd).symm

theorem decode_emitted {source source' : String} (h : compile source = .ok t)
    (h' : compile source' = .ok t') (v v' : Version) :
    Proguard.decode (Proguard.emit t v) = some (t.entries v) ∧
      Srg.decode (Srg.emit t v) = some ((t.entries v).map (·.rename internalName)) ∧
      (Proguard.emit t v = Proguard.emit t' v' ↔ Srg.emit t v = Srg.emit t' v') :=
  have ht := legal_of_compile h
  ⟨Proguard.decode_emit ht v, Srg.decode_emit ht v, emit_eq_iff ht (legal_of_compile h')⟩

theorem decode_emitted_imported : ∃ t t',
    (compile "pkg a; class B <- b \x7b md f(int, c.D...) <- g; \x7d" = .ok t ∧
      compile "pkg a; import c.D; class B <- a.b \x7b md f(int, D...) <- g; \x7d" = .ok t') ∧
      Proguard.decode (Proguard.emit t none) = some (t.entries none) ∧
      Srg.decode (Srg.emit t none) = some ((t.entries none).map (·.rename internalName)) ∧
      (Proguard.emit t none = Proguard.emit t' none ↔ Srg.emit t none = Srg.emit t' none) := by
  let method (type : String) : MethodDecl :=
    ⟨"f", [⟨"int", false⟩, ⟨type, true⟩], some "g", none, [], .empty⟩
  let s : Script := ⟨some "a", [], [(ClassDecl.ofHeader "B" (some "b") .empty).addMethod (method "c.D")]⟩
  let s' : Script := ⟨some "a", [⟨"c.D", none⟩],
    [(ClassDecl.ofHeader "B" (some "a.b") .empty).addMethod (method "D")]⟩
  have h : compile "pkg a; class B <- b \x7b md f(int, c.D...) <- g; \x7d" = .ok s.resolve :=
    compile_of_symbols (by cbv) (by decide) (by cbv)
  have h' : compile "pkg a; import c.D; class B <- a.b \x7b md f(int, D...) <- g; \x7d" = .ok s'.resolve :=
    compile_of_symbols (by cbv) (by decide) (by cbv)
  exact ⟨_, _, ⟨h, h'⟩, decode_emitted h h' none none⟩

end ObfuscationMap
