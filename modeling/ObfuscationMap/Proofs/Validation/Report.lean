import ObfuscationMap.Proofs.Validation
import Mathlib.Data.Finset.Card
import Mathlib.Data.List.Induction

/-!
What a report says, told without going through lists. An element is reported exactly if one before it in the
same list has the same key, so a list has as many reports as it has elements beyond the first ones of
each key. Reports on classes come in the order of the classes, and those on a class in the order of its checks,
of its members and of their aliases.
-/

namespace ObfuscationMap

section inTurn

variable {α β : Type}

/-- What is said of each element, in order, given those before it. -/
def inTurn (say : List α → α → List β) (as : List α) : List β :=
  as.zipIdx.flatMap fun a => say (as.take a.2) a.1

theorem inTurn_cons (say : List α → α → List β) (a : α) (as : List α) :
    inTurn say (a :: as) = say [] a ++ inTurn (fun before b => say (a :: before) b) as := by
  rw [inTurn, List.zipIdx_cons', List.flatMap_cons, List.flatMap_map]
  rfl

theorem inTurn_concat (say : List α → α → List β) (as : List α) (a : α) :
    inTurn say (as ++ [a]) = inTurn say as ++ say as a := by
  induction as generalizing say with
  | nil => simp [inTurn]
  | cons b as ih => rw [List.cons_append, inTurn_cons, inTurn_cons, ih, List.append_assoc]

theorem inTurn_congr {say say' : List α → α → List β} {as : List α}
    (h : ∀ before, before ⊆ as → ∀ a ∈ as, say before a = say' before a) : inTurn say as = inTurn say' as := by
  refine List.flatMap_congr fun a ha => h _ (List.take_subset _ _) _ ?_
  exact List.fst_mem_of_mem_zipIdx ha

theorem inTurn_each (f : α → List β) (as : List α) : inTurn (fun _ a => f a) as = as.flatMap f := by
  induction as with
  | nil => rfl
  | cons a as ih => rw [inTurn_cons, ih, List.flatMap_cons]

theorem filter_inTurn (p : β → Bool) (say : List α → α → List β) (as : List α) :
    (inTurn say as).filter p = inTurn (fun before a => (say before a).filter p) as :=
  List.filter_flatMap

/-- A scan says the same, if each step says it with the elements before at hand and passes them on. -/
theorem eq_inTurn {say : List α → α → List β} (scan : List α → List α → List β)
    (hnil : ∀ before, scan before [] = [])
    (hcons : ∀ before a as, scan before (a :: as) = say before a ++ scan (before ++ [a]) as)
    (as : List α) : scan [] as = inTurn say as := by
  have hbefore : ∀ before, scan before as = inTurn (fun b a => say (before ++ b) a) as := by
    induction as with
    | nil => exact hnil
    | cons a as ih =>
      intro before
      rw [hcons, ih, inTurn_cons, List.append_nil]
      simp only [List.append_assoc, List.singleton_append]
  exact hbefore []

end inTurn

/-- A key that may not be used twice in a list, and the problem it is if it is. -/
structure Check (α : Type) where
  kind : String
  key : α → String
  problem : α → Problem
  kind_problem : ∀ a, (problem a).kind = kind := by intro a; rfl

namespace Check

variable {α : Type}

def report (k : Check α) (before : List α) (a : α) : List Problem :=
  if ∃ b ∈ before, k.key b = k.key a then [k.problem a] else []

def found (k : Check α) (as : List α) : List Problem := inTurn k.report as

def className : Check ClassMapping where
  kind := "DUPLICATE_CLASS"
  key c := c.name
  problem c := .className c.name

def obfuscatedClass : Check ClassMapping where
  kind := "DUPLICATE_OBFUSCATED_CLASS"
  key c := c.obfuscated
  problem c := .obfuscatedClass c.obfuscated

def signature (c : String) : Check MethodMapping where
  kind := "DUPLICATE_METHOD_SIGNATURE"
  key m := m.signature
  problem m := .methodSignature c m.signature

def obfuscatedMethod (c : String) : Check MethodMapping where
  kind := "DUPLICATE_OBFUSCATED_METHOD"
  key m := m.obfuscated
  problem m := .obfuscatedMethod c m.obfuscated

def fieldName (c : String) : Check FieldMapping where
  kind := "DUPLICATE_FIELD"
  key f := f.name
  problem f := .fieldName c f.name

def obfuscatedField (c : String) : Check FieldMapping where
  kind := "DUPLICATE_OBFUSCATED_FIELD"
  key f := f.obfuscated
  problem f := .obfuscatedField c f.obfuscated

def version (owner : AliasOwner) : Check Alias where
  kind := "DUPLICATE_VERSION"
  key a := a.version
  problem a := .version a.version owner

def seen (k : Check α) (before : List α) : List String := (before.map k.key).reverse

theorem seen_concat (k : Check α) (before : List α) (a : α) :
    k.seen (before ++ [a]) = k.key a :: k.seen before := by
  rw [seen, List.map_append, List.reverse_append]
  rfl

theorem reportIf_seen (k : Check α) (before : List α) (a : α) :
    reportIf (k.key a) (k.seen before) (k.problem a) = k.report before a := by
  simp only [reportIf, report, seen, List.mem_reverse, List.mem_map]

theorem length_found (k : Check α) (as : List α) :
    (k.found as).length + (as.map k.key).toFinset.card = as.length := by
  induction as using List.reverseRecOn with
  | nil => rfl
  | append_singleton as a ih =>
    have hset : ((as ++ [a]).map k.key).toFinset = insert (k.key a) (as.map k.key).toFinset := by
      simp
    rw [found, inTurn_concat, List.length_append, List.length_append, hset, report]
    by_cases hk : ∃ b ∈ as, k.key b = k.key a
    · rw [if_pos hk, Finset.insert_eq_of_mem (by simpa using hk)]
      simp only [List.length_singleton, ← ih, found]
      omega
    · rw [if_neg hk, Finset.card_insert_of_notMem (by simpa using hk)]
      simp only [List.length_singleton, List.length_nil, ← ih, found]
      omega

end Check

namespace ClassMapping

def methodReport (c : ClassMapping) (before : List MethodMapping) (m : MethodMapping) : List Problem :=
  (Check.signature c.name).report before m ++ (Check.obfuscatedMethod c.name).report before m
    ++ (Check.version (.ofMethod c.name m.name)).found m.aliases

def fieldReport (c : ClassMapping) (before : List FieldMapping) (f : FieldMapping) : List Problem :=
  (Check.fieldName c.name).report before f ++ (Check.obfuscatedField c.name).report before f
    ++ (Check.version (.ofField c.name f.name)).found f.aliases

def report (before : List ClassMapping) (c : ClassMapping) : List Problem :=
  Check.className.report before c ++ Check.obfuscatedClass.report before c
    ++ (Check.version (.ofClass c.name)).found c.aliases
    ++ inTurn c.methodReport c.methods ++ inTurn c.fieldReport c.fields

end ClassMapping

theorem versionProblems_eq_found (owner : AliasOwner) (as : List Alias) :
    versionProblems owner [] as = (Check.version owner).found as := by
  refine eq_inTurn (fun before as => versionProblems owner ((Check.version owner).seen before) as)
    (fun _ => rfl) ?_ as
  intro before a as
  rw [Check.seen_concat, ← Check.reportIf_seen]
  rfl

theorem methodProblems_eq_inTurn (c : ClassMapping) (ms : List MethodMapping) :
    methodProblems c.name [] [] ms = inTurn c.methodReport ms := by
  refine eq_inTurn (fun before ms => methodProblems c.name ((Check.signature c.name).seen before)
    ((Check.obfuscatedMethod c.name).seen before) ms) (fun _ => rfl) ?_ ms
  intro before m ms
  rw [Check.seen_concat, Check.seen_concat, ClassMapping.methodReport, ← Check.reportIf_seen,
    ← Check.reportIf_seen, ← versionProblems_eq_found]
  rfl

theorem fieldProblems_eq_inTurn (c : ClassMapping) (fs : List FieldMapping) :
    fieldProblems c.name [] [] fs = inTurn c.fieldReport fs := by
  refine eq_inTurn (fun before fs => fieldProblems c.name ((Check.fieldName c.name).seen before)
    ((Check.obfuscatedField c.name).seen before) fs) (fun _ => rfl) ?_ fs
  intro before f fs
  rw [Check.seen_concat, Check.seen_concat, ClassMapping.fieldReport, ← Check.reportIf_seen,
    ← Check.reportIf_seen, ← versionProblems_eq_found]
  rfl

theorem validateClasses_eq_inTurn (cs : List ClassMapping) :
    validateClasses cs = inTurn ClassMapping.report cs := by
  refine eq_inTurn (fun before cs => classProblems (Check.className.seen before)
    (Check.obfuscatedClass.seen before) cs) (fun _ => rfl) ?_ cs
  intro before c cs
  rw [Check.seen_concat, Check.seen_concat, ClassMapping.report, ← Check.reportIf_seen,
    ← Check.reportIf_seen, ← versionProblems_eq_found, ← methodProblems_eq_inTurn,
    ← fieldProblems_eq_inTurn]
  simp only [classProblems, ClassMapping.problems, List.append_assoc]
  rfl

def ofKind (kind : String) (ps : List Problem) : List Problem := ps.filter fun p => p.kind == kind

section kinds

variable {α : Type} {kind : String}

theorem ofKind_append (ps qs : List Problem) : ofKind kind (ps ++ qs) = ofKind kind ps ++ ofKind kind qs :=
  List.filter_append ps qs

theorem ofKind_inTurn (say : List α → α → List Problem) (as : List α) :
    ofKind kind (inTurn say as) = inTurn (fun before a => ofKind kind (say before a)) as :=
  filter_inTurn _ say as

theorem Check.ofKind_report (k : Check α) (before : List α) (a : α) :
    ofKind kind (k.report before a) = if k.kind = kind then k.report before a else [] := by
  rw [report]
  split
  · simp [ofKind, List.filter_singleton, k.kind_problem]
  · exact (ite_self []).symm

end kinds

structure ByScope (report : List Problem) (cs : List ClassMapping) : Prop where
  classNames : ofKind "DUPLICATE_CLASS" report = Check.className.found cs
  obfuscatedClasses : ofKind "DUPLICATE_OBFUSCATED_CLASS" report = Check.obfuscatedClass.found cs
  signatures : ofKind "DUPLICATE_METHOD_SIGNATURE" report =
    cs.flatMap fun c => (Check.signature c.name).found c.methods
  obfuscatedMethods : ofKind "DUPLICATE_OBFUSCATED_METHOD" report =
    cs.flatMap fun c => (Check.obfuscatedMethod c.name).found c.methods
  fieldNames : ofKind "DUPLICATE_FIELD" report =
    cs.flatMap fun c => (Check.fieldName c.name).found c.fields
  obfuscatedFields : ofKind "DUPLICATE_OBFUSCATED_FIELD" report =
    cs.flatMap fun c => (Check.obfuscatedField c.name).found c.fields
  versions : ofKind "DUPLICATE_VERSION" report = cs.flatMap fun c =>
    (Check.version (.ofClass c.name)).found c.aliases
      ++ c.methods.flatMap (fun m => (Check.version (.ofMethod c.name m.name)).found m.aliases)
      ++ c.fields.flatMap fun f => (Check.version (.ofField c.name f.name)).found f.aliases

theorem flatMap_nothing {α β : Type} (as : List α) : as.flatMap (fun _ => ([] : List β)) = [] :=
  List.flatMap_eq_nil_iff.mpr fun _ _ => rfl

theorem byScope_inTurn (cs : List ClassMapping) : ByScope (inTurn ClassMapping.report cs) cs := by
  constructor <;>
    simp [ofKind_inTurn, ofKind_append, Check.ofKind_report, Check.found, inTurn_each, flatMap_nothing,
      ClassMapping.report, ClassMapping.methodReport, ClassMapping.fieldReport, Check.className,
      Check.obfuscatedClass, Check.signature, Check.obfuscatedMethod, Check.fieldName,
      Check.obfuscatedField, Check.version]

def ClassMapping.withoutInner (c : ClassMapping) : ClassMapping := { c with inner := [] }

theorem classProblems_withoutInner (names obfuscated : List String) (cs : List ClassMapping) :
    classProblems names obfuscated (cs.map (·.withoutInner)) = classProblems names obfuscated cs := by
  induction cs generalizing names obfuscated with
  | nil => rfl
  | cons c cs ih =>
    rw [List.map_cons, classProblems, classProblems, ih]
    rfl

/-- A report has one problem for each element whose key an earlier one of its list has, in the order of the
elements, and nothing else. So a list has as many problems as it has elements too many, and there are none if no
key of any list is used twice. Classes inside classes do not matter. -/
theorem validateClasses_exact (cs : List ClassMapping) :
    validateClasses cs = inTurn ClassMapping.report cs ∧
    ByScope (validateClasses cs) cs ∧
    (∀ (α : Type) (k : Check α) (as : List α),
      (k.found as).length + (as.map k.key).toFinset.card = as.length) ∧
    (validateClasses cs = [] ↔
      (cs.map (·.name)).Nodup ∧ (cs.map (·.obfuscated)).Nodup ∧ ∀ c ∈ cs, c.Clean) ∧
    ∀ ds : List ClassMapping, ds.map (·.withoutInner) = cs.map (·.withoutInner) →
      validateClasses ds = validateClasses cs := by
  refine ⟨validateClasses_eq_inTurn cs, ?_, fun _ k as => k.length_found as, ?_, ?_⟩
  · rw [validateClasses_eq_inTurn]
    exact byScope_inTurn cs
  · rw [validateClasses, classProblems_eq_nil_iff, fresh_start, fresh_start]
  · intro ds h
    rw [validateClasses, ← classProblems_withoutInner, h, classProblems_withoutInner]
    rfl

theorem validateClasses_exact_threefold :
    let c : ClassMapping := ⟨⟨"A", "a", []⟩, .empty, [], [], []⟩
    let aliases : List Alias := [.live "v" "x" .empty, .live "v" "y" .empty, .gone "v"]
    let d : ClassMapping := ⟨⟨"A", "b", aliases⟩, .empty, [], [], []⟩
    let twice : Problem := .version "v" (.ofClass "A")
    [{ c with inner := [d, d] }, d, c].map (·.withoutInner) = [c, d, c].map (·.withoutInner) ∧
      validateClasses [{ c with inner := [d, d] }, d, c] =
        [.className "A", twice, twice, .className "A", .obfuscatedClass "a"] := by
  intro c aliases d twice
  have hreport : validateClasses [c, d, c] =
      [.className "A", twice, twice, .className "A", .obfuscatedClass "a"] := by decide
  exact ⟨rfl, ((validateClasses_exact [c, d, c]).2.2.2.2 _ rfl).trans hreport⟩

end ObfuscationMap
