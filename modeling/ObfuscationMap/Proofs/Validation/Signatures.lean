import ObfuscationMap.Proofs.Layout
import ObfuscationMap.Proofs.Legality.Resolution
import ObfuscationMap.Proofs.RoundTrip
import ObfuscationMap.Proofs.Validation.Report

/-!
Signatures of methods. A name holds no parenthesis and a type no comma, and no type is empty, so a signature tells
the name and the types it was made of. Methods of a compiled mapping are therefore reported for their signature
exactly if an earlier method of the class has the same name and takes the same types, however these were imported.
-/

namespace ObfuscationMap

namespace MethodMapping

def types (m : MethodMapping) : List String := m.parameters.map (·.type)

theorem toList_signature (m : MethodMapping) : m.signature.toList =
    m.name.toList ++ '(' :: ([','].intercalate (m.types.map String.toList) ++ [')']) := by
  have hcomma : ",".toList = [','] := rfl
  simp [signature, types, String.toList_intercalate, hcomma]

theorem Legal.types {m : MethodMapping} (h : m.Legal) :
    ∀ cs ∈ m.types.map String.toList, cs ≠ [] ∧ ',' ∉ cs := by
  rw [List.forall_mem_map, MethodMapping.types, List.forall_mem_map]
  intro p hp
  have hq := h.parameters p hp
  exact ⟨qualified_ne_nil hq, not_mem_qualified hq (by decide) (by decide)⟩

theorem signature_eq_iff {m n : MethodMapping} (hm : m.Legal) (hn : n.Legal) :
    m.signature = n.signature ↔ m.name = n.name ∧ m.types = n.types := by
  have hopen : ∀ {k : MethodMapping}, k.Legal → '(' ∉ k.name.toList :=
    fun h => not_mem_identifier h.name (by decide)
  have htypes : Function.Injective (List.map String.toList) :=
    List.map_injective_iff.mpr fun _ _ he => String.toList_injective he
  rw [← String.toList_inj, toList_signature, toList_signature, append_until_inj (hopen hm) (hopen hn),
    List.append_left_inj, intercalate_inj hm.types hn.types, String.toList_inj,
    htypes.eq_iff]

end MethodMapping

def ClassMapping.repeatedMethod (c : ClassMapping) (before : List MethodMapping) (m : MethodMapping) :
    List Problem :=
  if ∃ n ∈ before, n.name = m.name ∧ n.types = m.types then [.methodSignature c.name m.signature] else []

theorem found_signature {c : ClassMapping} (h : ∀ m ∈ c.methods, m.Legal) :
    (Check.signature c.name).found c.methods = inTurn c.repeatedMethod c.methods := by
  refine inTurn_congr fun before hb m hm => ?_
  have hsame : (∃ n ∈ before, n.signature = m.signature) ↔
      ∃ n ∈ before, n.name = m.name ∧ n.types = m.types :=
    exists_congr fun n => and_congr_right fun hn => MethodMapping.signature_eq_iff (h n (hb hn)) (h m hm)
  simp only [Check.report, Check.signature, ClassMapping.repeatedMethod, hsame]

def MethodDecl.importedTypes (table : OrderedMap String) (m : MethodDecl) : List String :=
  m.parameters.map fun p => resolveType table p.type

theorem MethodDecl.types_resolve (table : OrderedMap String) (m : MethodDecl) :
    (m.resolve table).types = m.importedTypes table := by
  rw [MethodMapping.types, MethodDecl.resolve, List.map_map]
  rfl

theorem signatures_of_compile {source : String} {t : Mapping} (h : compile source = .ok t) :
    (∀ c ∈ t.classes, ∀ m ∈ c.methods, ∀ n ∈ c.methods,
      m.signature = n.signature ↔ m.name = n.name ∧ m.types = n.types) ∧
    ofKind "DUPLICATE_METHOD_SIGNATURE" t.validate =
      (t.classes.flatMap fun c => inTurn c.repeatedMethod c.methods) ∧
    ∃ ts s, tokenize source = .ok ts ∧ parse ts = .ok s ∧ t = s.resolve ∧
      let table := importTable s.imports
      ∀ d ∈ s.classes, ∀ m ∈ d.methods, ∀ n ∈ d.methods,
        (m.resolve table).signature = (n.resolve table).signature ↔
          m.name = n.name ∧ m.importedTypes table = n.importedTypes table := by
  have hlegal : ∀ c ∈ t.classes, ∀ m ∈ c.methods, m.Legal := by
    intro c hc
    obtain ⟨-, -, -, hmethods, -⟩ := (legal_of_compile h).classes c hc
    exact hmethods
  refine ⟨fun c hc m hm n hn => MethodMapping.signature_eq_iff (hlegal c hc m hm) (hlegal c hc n hn), ?_, ?_⟩
  · rw [Mapping.validate, validateClasses_eq_inTurn, (byScope_inTurn t.classes).signatures]
    exact List.flatMap_congr fun c hc => found_signature (hlegal c hc)
  · obtain ⟨ts, s, ht, hs, rfl⟩ := compile_eq_ok h
    refine ⟨ts, s, ht, hs, rfl, fun d hd m hm n hn => ?_⟩
    have hclass : d.resolve (importTable s.imports) ∈ s.resolve.classes := by
      rw [s.classes_resolve]
      exact List.mem_map_of_mem hd
    have hmethod : ∀ k ∈ d.methods, (k.resolve (importTable s.imports)).Legal := by
      intro k hk
      refine hlegal _ hclass _ ?_
      rw [ClassDecl.resolve_eq]
      exact List.mem_map_of_mem hk
    rw [MethodMapping.signature_eq_iff (hmethod m hm) (hmethod n hn), MethodDecl.types_resolve,
      MethodDecl.types_resolve]
    rfl

theorem signatures_of_compile_imported :
    let source := "import a.B as C;class D\x7bmd f(C);md f(a.B...);md f(B);\x7d"
    ∃ t, compile source = .ok t ∧
      ofKind "DUPLICATE_METHOD_SIGNATURE" t.validate = [.methodSignature "D" "f(a.B)"] := by
  intro source
  let method (p : Parameter) : MethodDecl := ⟨"f", [p], none, none, [], .empty⟩
  let d : ClassDecl :=
    ⟨"D", none, .empty, [method ⟨"C", false⟩, method ⟨"a.B", true⟩, method ⟨"B", false⟩], [], [], []⟩
  let s : Script := ⟨none, [⟨"a.B", some "C"⟩], [d]⟩
  have h : compile source = .ok s.resolve := compile_of_symbols (by cbv) (by decide) (by cbv)
  exact ⟨s.resolve, h, (signatures_of_compile h).2.1.trans (by decide)⟩

end ObfuscationMap
