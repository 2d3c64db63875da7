import ObfuscationMap.Proofs.Index
import Mathlib.Data.List.Find

/-!
The class that suits a name best. Classes that are called exactly so, by their own name or by that of the
version, come before those that have the name by default, and these before all that have its letters inside
some name of theirs. Within a tier the first class counts, and a tier counts only where the ones before it are
empty.
-/

namespace ObfuscationMap

namespace Text

/-- Only for a sigma does it matter what stands around a letter. -/
theorem lowerFrom_eq_flatMap {cs : List Char} (h : capitalSigma ∉ cs) (before : List Char) :
    lowerFrom before cs = cs.flatMap lowerChar := by
  induction cs generalizing before with
  | nil => rfl
  | cons c cs ih =>
    rw [List.mem_cons, not_or] at h
    rw [lowerFrom, if_neg (Ne.symm h.1), ih h.2, List.flatMap_cons]

theorem lowercase_infix {needle hay : String} (h : capitalSigma ∉ hay.toList)
    (hi : needle.toList <:+: hay.toList) : lowercase needle <:+: lowercase hay := by
  have hn : capitalSigma ∉ needle.toList := fun hm => h (hi.subset hm)
  rw [lowercase, lowercase, lowerFrom_eq_flatMap h, lowerFrom_eq_flatMap hn]
  obtain ⟨front, back, he⟩ := hi
  refine ⟨front.flatMap lowerChar, back.flatMap lowerChar, ?_⟩
  rw [← he, List.flatMap_append, List.flatMap_append]

def IsAscii (name : String) : Prop := ∀ c ∈ name.toList, c.toNat < 128

instance (name : String) : Decidable (IsAscii name) := List.decidableBAll _ name.toList

theorem IsAscii.not_sigma {name : String} (h : IsAscii name) : capitalSigma ∉ name.toList :=
  fun hm => absurd (h _ hm) (by decide)

end Text

def Renaming.allNames (r : Renaming) : List String :=
  r.name :: r.obfuscated :: r.liveAliases.map (·.name)

namespace SourcedClass

variable (name : String) (v : Version) (c : SourcedClass)

def CalledExactly : Prop := c.names.name = name ∨ c.names.nameIn? v = some name

def CalledByDefault : Prop := c.names.obfuscated = name

/-- Some name of the class, in whichever version, has the name inside when case is ignored. -/
def CalledRoughly : Prop := ∃ n ∈ c.names.allNames, Text.lowercase name <:+: Text.lowercase n

instance : Decidable (c.CalledExactly name v) := inferInstanceAs (Decidable (_ ∨ _))

instance : Decidable (c.CalledByDefault name) := inferInstanceAs (Decidable (_ = _))

instance : Decidable (c.CalledRoughly name) := inferInstanceAs (Decidable (∃ n ∈ _, _))

end SourcedClass

/-- What suits a name best among some classes. -/
inductive BestSuited (cs : List SourcedClass) (name : String) (v : Version) : Option SourcedClass → Prop
  | exactly {c : SourcedClass} : First (·.CalledExactly name v) cs c → BestSuited cs name v (some c)
  | byDefault {c : SourcedClass} : (∀ d ∈ cs, ¬ d.CalledExactly name v) →
      First (·.CalledByDefault name) cs c → BestSuited cs name v (some c)
  | roughly {c : SourcedClass} : (∀ d ∈ cs, ¬ d.CalledExactly name v) →
      (∀ d ∈ cs, ¬ d.CalledByDefault name) →
      First (·.CalledRoughly name) cs c → BestSuited cs name v (some c)
  | nothing : (∀ d ∈ cs, ¬ d.CalledExactly name v) → (∀ d ∈ cs, ¬ d.CalledByDefault name) →
      (∀ d ∈ cs, ¬ d.CalledRoughly name) → BestSuited cs name v none

namespace Index

variable (ts : List Mapping) (name : String) (v : Version)

theorem calledExactly_iff (c : SourcedClass) : calledExactly name v c = true ↔ c.CalledExactly name v := by
  rw [calledExactly, Bool.or_eq_true, beq_iff_eq, beq_iff_eq]
  rfl

theorem nameOf_default_iff (c : SourcedClass) :
    (c.names.nameOf? v .default == some name) = true ↔ c.CalledByDefault name := by
  rw [beq_iff_eq, Renaming.nameOf?, Option.some_inj]
  rfl

theorem calledRoughly_iff (c : SourcedClass) :
    calledRoughly (Text.lowercase name) c = true ↔ c.CalledRoughly name := by
  simp only [calledRoughly, List.any_eq_true, Text.occursIn_iff]
  rfl

theorem find?_calledExactly_none (cs : List SourcedClass) : cs.find? (calledExactly name none) =
    searchKind SourcedClass.names cs name none .own :=
  List.find?_congr fun _ _ => Bool.or_false _

theorem findBest_ofSources : (ofSources ts).findBest name v =
    ((outermost ts).find? (calledExactly name v)).or
      ((searchKind SourcedClass.names (outermost ts) name v .default).or
        ((outermost ts).find? (calledRoughly (Text.lowercase name)))) := by
  rw [findBest, classes_ofSources, names_ofSources, NameTable.byName_ofClasses _ name v,
    NameTable.byObfuscated_ofClasses _ name v]
  simp only [Option.orElse_eq_orElse, Option.orElse_eq_or]
  cases v with
  | none =>
    rw [find?_calledExactly_none, Option.isSome_none, if_neg Bool.false_ne_true, Option.none_or]
  | some v =>
    rw [Option.isSome_some, if_pos rfl]
    cases hexact : (outermost ts).find? (calledExactly name (some v)) with
    | some c => rw [Option.some_or, Option.some_or]
    | none =>
      have hown : searchKind SourcedClass.names (outermost ts) name (some v) .own = none := by
        refine List.find?_eq_none.mpr fun c hc hp => List.find?_eq_none.mp hexact c hc ?_
        exact (calledExactly_iff name (some v) c).mpr (.inl (Option.some.inj (beq_iff_eq.mp hp)))
      rw [hown, Option.none_or, Option.none_or]

theorem findBest_eq_iff (answer : Option SourcedClass) :
    (ofSources ts).findBest name v = answer ↔ BestSuited (outermost ts) name v answer := by
  have hexact := calledExactly_iff name v
  have hdefault := nameOf_default_iff name v
  have hrough := calledRoughly_iff name
  rw [findBest_ofSources, searchKind]
  constructor
  · rintro rfl
    cases he : (outermost ts).find? (calledExactly name v) with
    | some c => exact .exactly ((find?_eq_some_iff_first hexact).mp he)
    | none =>
      replace he := (find?_eq_none_iff_not hexact).mp he
      rw [Option.none_or]
      cases hd : (outermost ts).find? fun c => c.names.nameOf? v .default == some name with
      | some c => exact .byDefault he ((find?_eq_some_iff_first hdefault).mp hd)
      | none =>
        replace hd := (find?_eq_none_iff_not hdefault).mp hd
        rw [Option.none_or]
        cases hr : (outermost ts).find? (calledRoughly (Text.lowercase name)) with
        | some c => exact .roughly he hd ((find?_eq_some_iff_first hrough).mp hr)
        | none => exact .nothing he hd ((find?_eq_none_iff_not hrough).mp hr)
  · intro h
    cases h with
    | exactly he => rw [(find?_eq_some_iff_first hexact).mpr he, Option.some_or]
    | byDefault he hd =>
      rw [(find?_eq_none_iff_not hexact).mpr he, (find?_eq_some_iff_first hdefault).mpr hd,
        Option.none_or, Option.some_or]
    | roughly he hd hr =>
      rw [(find?_eq_none_iff_not hexact).mpr he, (find?_eq_none_iff_not hdefault).mpr hd,
        (find?_eq_some_iff_first hrough).mpr hr, Option.none_or, Option.none_or]
    | nothing he hd hr =>
      rw [(find?_eq_none_iff_not hexact).mpr he, (find?_eq_none_iff_not hdefault).mpr hd,
        (find?_eq_none_iff_not hrough).mpr hr, Option.none_or, Option.none_or]

variable {ts name v}

theorem findBest_ne_none {c : SourcedClass} (hc : c ∈ outermost ts)
    (h : c.CalledExactly name v ∨ c.CalledByDefault name ∨ c.CalledRoughly name) :
    (ofSources ts).findBest name v ≠ none := by
  rw [Ne, findBest_eq_iff]
  intro hn
  cases hn with
  | nothing he hd hr =>
    rcases h with h | h | h
    · exact he c hc h
    · exact hd c hc h
    · exact hr c hc h

theorem findBest_of_findClass {c : SourcedClass} (h : (ofSources ts).findClass name v = some c) :
    (ofSources ts).findBest name v ≠ none := by
  rw [findClass_ofSources] at h
  obtain ⟨hc, k, -, hk⟩ := search_hit h
  refine findBest_ne_none hc ?_
  cases k with
  | own => exact .inl (.inl (Option.some.inj hk))
  | default => exact .inr (.inl (Option.some.inj hk))
  | versioned => exact .inl (.inr hk)

theorem findBest_no_version : (ofSources ts).findBest name none =
    ((ofSources ts).findClass name none).or
      ((outermost ts).find? (calledRoughly (Text.lowercase name))) := by
  have hversioned : searchKind SourcedClass.names (outermost ts) name none .versioned = none :=
    List.find?_eq_none.mpr fun c _ hp => by cases beq_iff_eq.mp hp
  rw [findBest_ofSources, find?_calledExactly_none, findClass_ofSources]
  simp only [search_cons, search_nil, hversioned, Option.or_none, Option.or_assoc]

/-- The class that is found is the best suited one of all outermost classes. Every class that is found by its
name is found in this way too, if not preferred by it, and so is every ASCII name by its parts. -/
theorem findBest_tiers (ts : List Mapping) (name : String) (v : Version) :
    (∀ answer, (ofSources ts).findBest name v = answer ↔ BestSuited (outermost ts) name v answer) ∧
    (∀ c, (ofSources ts).findClass name v = some c → ∃ d, (ofSources ts).findBest name v = some d) ∧
    (∀ c, (ofSources ts).findClass name none = some c → (ofSources ts).findBest name none = some c) ∧
    ∀ c ∈ outermost ts, ∀ n ∈ c.names.allNames, Text.IsAscii n → name.toList <:+: n.toList →
      ∃ d, (ofSources ts).findBest name v = some d := by
  refine ⟨findBest_eq_iff ts name v, ?_, ?_, ?_⟩
  · intro c h
    exact Option.ne_none_iff_exists'.mp (findBest_of_findClass h)
  · intro c h
    rw [findBest_no_version, h, Option.some_or]
  · intro c hc n hn hascii hinside
    refine Option.ne_none_iff_exists'.mp (findBest_ne_none hc (.inr (.inr ⟨n, hn, ?_⟩)))
    exact Text.lowercase_infix hascii.not_sigma hinside

theorem findBest_tiers_rivals :
    let foo : ClassMapping := ⟨⟨"Foo", "x", [.live "v" "bar" .empty]⟩, .empty, [], [], []⟩
    let baz : ClassMapping := ⟨⟨"Baz", "bar", []⟩, .empty, [], [], []⟩
    let i : Index := ofSources [⟨"", .empty, [foo, baz]⟩]
    i.findBest "bar" (some "v") = some ⟨0, 0, foo⟩ ∧ i.findBest "bar" none = some ⟨0, 1, baz⟩ ∧
      i.findBest "AR" none = some ⟨0, 0, foo⟩ ∧ ∃ d, i.findBest "az" (some "v") = some d := by
  intro foo baz i
  have best (name v) := findBest_tiers [⟨"", .empty, [foo, baz]⟩] name v
  refine ⟨((best "bar" (some "v")).1 _).mpr (.exactly ?_), ((best "bar" none).1 _).mpr (.byDefault ?_ ?_),
    ((best "AR" none).1 _).mpr (.roughly ?_ ?_ ?_), ?_⟩
  · exact .head (.inr rfl)
  · decide
  · exact ⟨rfl, [⟨0, 0, foo⟩], [], rfl, by decide⟩
  · decide
  · decide
  · exact .head (by decide)
  · exact (best "az" (some "v")).2.2.2 ⟨0, 1, baz⟩ (mem_outermost.mpr rfl) "Baz" (by decide) (by decide)
      (by decide)

end Index
end ObfuscationMap
