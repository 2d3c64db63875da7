import ObfuscationMap.Remapper
import ObfuscationMap.Proofs.Emission.Splitting
import ObfuscationMap.Proofs.Lookup
import ObfuscationMap.Proofs.RoundTrip
import ObfuscationMap.Proofs.Validation

/-!
The remapper agrees with the line format. Both start from the same mappings, but the format goes through
their classes while the remapper looks names up. Where no mapping has a problem and no two classes have one
internal name, every own name leads to what it was taken from, and a method is told from its overloads by
its parameters.
-/

namespace ObfuscationMap

theorem parameterPart?_types {ps : List Parameter} (h : ∀ p ∈ ps, isQualified p.type) (rest : List Char) :
    Remapper.parameterPart? ('(' :: (typesText ps ++ ')' :: rest)) = some ('(' :: (typesText ps ++ [')'])) := by
  have hclose : ')' ∉ '(' :: typesText ps := by
    simpa using not_mem_typesText h (c := ')') (by decide) (by decide)
  rw [Remapper.parameterPart?, if_pos (by simp), ← List.cons_append, takeWhile_until hclose]
  rfl

theorem findOverload_types {c : ClassMapping} (hl : ∀ m ∈ c.methods, m.Legal) {ps : List Parameter}
    (hp : ∀ p ∈ ps, isQualified p.type) {descriptor : String} {rest : List Char}
    (hd : descriptor.toList = '(' :: (typesText ps ++ ')' :: rest)) (name : String) :
    Remapper.findOverload c name descriptor =
      c.methods.find? fun m => m.name == name && m.parameters == ps := by
  rw [Remapper.findOverload, hd, parameterPart?_types hp, Option.bind_some]
  refine List.find?_congr fun m hm => ?_
  congr 1
  rw [Bool.eq_iff_iff, List.isPrefixOf_iff_prefix, parameters_prefix_iff hp (hl m hm).parameters, beq_iff_eq,
    eq_comm]

theorem findOverload_descriptor {c : ClassMapping} (hl : ∀ m ∈ c.methods, m.Legal)
    (hn : (c.methods.map (·.signature)).Nodup) {m : MethodMapping} (hm : m ∈ c.methods) :
    Remapper.findOverload c m.name (methodDescriptor m.parameters) = some m := by
  rw [findOverload_types hl (hl m hm).parameters (toList_methodDescriptor _)]
  apply find?_eq_some_of_unique hm
  · rw [BEq.rfl, BEq.rfl, Bool.true_and]
  · intro b hb he
    rw [Bool.and_eq_true, beq_iff_eq, beq_iff_eq] at he
    apply List.inj_on_of_nodup_map hn hb hm
    rw [MethodMapping.signature, MethodMapping.signature, he.1, he.2]

def Srg.Line.AgreesWith (r : Remapper) : Srg.Line → Prop
  | .ofClass o n => r.mapClass n = o
  | .ofField o x n f => r.mapClass n = o ∧ r.mapField n f = x
  | .ofMethod o x d n m d' => d' = d ∧ r.mapClass n = o ∧ r.mapMethod n m d = x

section remapper

variable {ts : List Mapping} {t : Mapping} {c : ClassMapping} {v : Version}

theorem classes_address (hn : ((Remapper.ownedClasses ts).map Remapper.address).Nodup) (ht : t ∈ ts)
    (hc : c ∈ t.classes) :
    ((Remapper.ofSession (.ofSources ts)).useVersion v).classes[internalName (t.fullName c)]? =
      some ⟨t, c⟩ := by
  have hmem : ⟨t, c⟩ ∈ Remapper.ownedClasses ts :=
    List.mem_flatMap.mpr ⟨t, ht, List.mem_map_of_mem hc⟩
  have hf := getElem?_insertIfNew_all Remapper.address (Remapper.ownedClasses ts) ∅
    (internalName (t.fullName c))
  refine hf.trans ?_
  rw [Std.HashMap.getElem?_empty, Option.none_or]
  exact find?_of_nodup hn hmem

theorem agrees_class {r : Remapper} (hr : r.classes[internalName (t.fullName c)]? = some ⟨t, c⟩)
    (hl : c.Legal) (hc : c.Clean) :
    ∀ k ∈ (ClassEntry.of t r.version c).lines, (Srg.Line.of (.of t r.version c) k).AgreesWith r := by
  have hclass : r.mapClass (internalName (t.fullName c)) =
      internalName (t.obfuscatedFullName c r.version) := by
    rw [Remapper.mapClass, hr]
  cases hl with
  | mk _ _ _ hms _ _ _ =>
    rw [ClassEntry.lines, List.forall_mem_cons, List.forall_mem_append]
    refine ⟨hclass, ?_, ?_⟩
    · rw [List.forall_mem_map, ClassEntry.of, List.forall_mem_map]
      intro f hf
      refine ⟨hclass, ?_⟩
      have hfind : c.findField f.name r.version = some f := findMember_name hc.fields hf r.version
      simp only [FieldEntry.of, Remapper.mapField, hr, Option.bind_some, hfind]
    · rw [List.forall_mem_map, ClassEntry.of, List.forall_mem_map]
      intro m hm
      refine ⟨rfl, hclass, ?_⟩
      have hfind := findOverload_descriptor hms hc.signatures hm
      simp only [MethodEntry.of, Remapper.mapMethod, hr, Option.bind_some, hfind]
      rfl

end remapper

theorem toList_emitAll (ts : List Mapping) (v : Version) : (EmitFormat.srg.emitAll ts v).toList =
    unlines ((ts.flatMap fun t => (t.entries v).flatMap Srg.linesFor).map Srg.Line.text) := by
  rw [EmitFormat.emitAll_srg, String.toList_join, List.flatMap_map, List.map_flatMap]
  simp only [unlines, List.flatMap_assoc]
  congr 1
  funext t
  exact Srg.toList_emit t v

theorem remapper_agrees {sources : List String} {ts : List Mapping}
    (hc : sources.map compile = ts.map .ok) (hv : ∀ t ∈ ts, t.validate = [])
    (hn : (ts.flatMap fun t => t.classes.map fun c => internalName (t.fullName c)).Nodup) (v : Version) :
    ∀ line ∈ linesOf (EmitFormat.srg.emitAll ts v).toList, ∃ l : Srg.Line,
      Srg.Line.read? line = some l ∧ l.text = line ∧
        l.AgreesWith ((Remapper.ofSession (.ofSources ts)).useVersion v) := by
  have hlegal : ∀ t ∈ ts, t.Legal := by
    intro t ht
    have hm : Except.ok t ∈ sources.map compile := hc ▸ List.mem_map_of_mem ht
    obtain ⟨source, -, hs⟩ := List.mem_map.mp hm
    exact legal_of_compile hs
  have hnodup : ((Remapper.ownedClasses ts).map Remapper.address).Nodup := by
    rw [Remapper.ownedClasses, List.map_flatMap]
    simp only [List.map_map]
    exact hn
  have hlines : ∀ l ∈ ts.flatMap fun t => (t.entries v).flatMap Srg.linesFor, '\n' ∉ l.text := by
    intro l hl
    obtain ⟨t, ht, hl⟩ := List.mem_flatMap.mp hl
    exact Srg.newline_not_mem_emitted (hlegal t ht) v l hl
  rw [toList_emitAll, linesOf_unlines (List.forall_mem_map.mpr hlines), List.forall_mem_map]
  intro l hl
  obtain ⟨t, ht, hl⟩ := List.mem_flatMap.mp hl
  obtain ⟨c, hmem, k, hk, rfl⟩ := Srg.mem_lines hl
  have he := legal_entry (hlegal t ht) hmem v
  have hclean := (Mapping.validate_eq_nil_iff.mp (hv t ht)).classes c hmem
  have hr := classes_address hnodup ht hmem (v := v)
  exact ⟨_, Srg.read?_text he (he.lines k hk), rfl,
    agrees_class hr ((hlegal t ht).classes c hmem) hclean k hk⟩

theorem remapper_agrees_overloads :
    let first : String :=
      "pkg a; class B <- b \x7b md f(int) <- g \x7b aliases \x7b v h; \x7d \x7d md f(B...) <- i; \x7d"
    let second : String := "class B <- c \x7b fd x <- y; \x7d"
    ∃ ts, [first, second].map compile = ts.map .ok ∧ (∀ t ∈ ts, t.validate = []) ∧
      (ts.flatMap fun t => t.classes.map fun c => internalName (t.fullName c)).Nodup ∧
      ∀ line ∈ linesOf (EmitFormat.srg.emitAll ts (some "v")).toList, ∃ l : Srg.Line,
        Srg.Line.read? line = some l ∧ l.text = line ∧
          l.AgreesWith ((Remapper.ofSession (.ofSources ts)).useVersion (some "v")) := by
  intro first second
  let f : MethodDecl := ⟨"f", [⟨"int", false⟩], some "g", none, [.live "v" "h" .empty], .empty⟩
  let g : MethodDecl := ⟨"f", [⟨"B", true⟩], some "i", none, [], .empty⟩
  let s : Script := ⟨some "a", [], [⟨"B", some "b", .empty, [f, g], [], [], []⟩]⟩
  let s' : Script := ⟨none, [], [⟨"B", some "c", .empty, [], [⟨"x", some "y", [], .empty⟩], [], []⟩]⟩
  let ts : List Mapping := [s.resolve, s'.resolve]
  have h : compile first = .ok s.resolve :=
    compile_of_symbols (by unfold first; cbv) (by decide) (by cbv)
  have h' : compile second = .ok s'.resolve :=
    compile_of_symbols (by unfold second; cbv) (by decide) (by cbv)
  have hc : [first, second].map compile = ts.map .ok := by
    simp only [ts, List.map_cons, List.map_nil, h, h']
  have hv : ∀ t ∈ ts, t.validate = [] := by decide
  have hn : (ts.flatMap fun t => t.classes.map fun c => internalName (t.fullName c)).Nodup := by
    have he : (ts.flatMap fun t => t.classes.map fun c => internalName (t.fullName c)) =
        ["a/B", "B"] := by cbv
    rw [he]
    decide
  exact ⟨ts, hc, hv, hn, remapper_agrees hc hv hn _⟩

end ObfuscationMap
