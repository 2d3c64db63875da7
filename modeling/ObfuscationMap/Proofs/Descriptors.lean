import ObfuscationMap.Descriptor
import ObfuscationMap.Proofs.Legality.Resolution

/-!
Descriptors are read back. The letter of a primitive type stands alone and the name of a class ends with a
semicolon, so no type of a descriptor begins another one, and the parameters end with the first closing
parenthesis. What is read are the parameters with internal names.
-/

namespace ObfuscationMap

def primitiveName? : Char → Option String
  | 'B' => some "byte"
  | 'C' => some "char"
  | 'D' => some "double"
  | 'F' => some "float"
  | 'I' => some "int"
  | 'J' => some "long"
  | 'S' => some "short"
  | 'Z' => some "boolean"
  | 'V' => some "void"
  | _ => none

def Parameter.rename (f : String → String) (p : Parameter) : Parameter := ⟨f p.type, p.varargs⟩

theorem rename_rename_parameters {f g : String → String} {ps : List Parameter}
    (h : ∀ name, isQualified name → g (f name) = name) (hp : ∀ p ∈ ps, isQualified p.type) :
    (ps.map (·.rename f)).map (·.rename g) = ps :=
  map_map_eq_self fun p hm => congrArg (Parameter.mk · p.varargs) (h p.type (hp p hm))

/-- Reads parameters up to the closing parenthesis. Of the parameter that is being read it is known
whether it repeats, and the part of its class name that has been passed, if there is one. -/
def readTypes (varargs : Bool) : Option (List Char) → List Char → Option (List Parameter)
  | _, [] => none
  | some name, c :: cs =>
    if c = ';' then (readTypes false none cs).map (⟨String.ofList name, varargs⟩ :: ·)
    else readTypes varargs (some (name ++ [c])) cs
  | none, c :: cs =>
    if c = ')' then some []
    else if c = '[' then readTypes true none cs
    else if c = 'L' then readTypes varargs (some []) cs
    else (primitiveName? c).bind fun type => (readTypes false none cs).map (⟨type, varargs⟩ :: ·)

def readDescriptor? : List Char → Option (List Parameter)
  | '(' :: cs => readTypes false none cs
  | _ => none

structure Primitive (type : String) (c : Char) : Prop where
  name : primitiveName? c = some type
  undotted : '.' ∉ type.toList
  letter : isWordPart c ∧ c ≠ 'L'

theorem primitive_of_letter {type letter : String} (h : primitiveLetter? type = some letter) :
    ∃ c, letter.toList = [c] ∧ Primitive type c := by
  unfold primitiveLetter? at h
  split at h <;> cases h <;> exact ⟨_, rfl, by decide, by decide, by decide⟩

theorem readTypes_name {varargs : Bool} {rest : List Char} (cs name : List Char) (h : ';' ∉ cs) :
    readTypes varargs (some name) (cs ++ ';' :: rest) =
      (readTypes false none rest).map (⟨String.ofList (name ++ cs), varargs⟩ :: ·) := by
  induction cs generalizing name with
  | nil => simp [readTypes]
  | cons c cs ih =>
    rw [List.mem_cons, not_or] at h
    rw [List.cons_append, readTypes, if_neg (Ne.symm h.1), ih _ h.2, List.append_assoc,
      List.singleton_append]

theorem readTypes_type {varargs : Bool} {type : String} (h : isQualified type) (rest : List Char) :
    readTypes varargs none
        (((primitiveLetter? type).getD ("L" ++ internalName type ++ ";")).toList ++ rest) =
      (readTypes false none rest).map (⟨internalName type, varargs⟩ :: ·) := by
  cases hl : primitiveLetter? type with
  | none =>
    have hs : ';' ∉ (internalName type).toList := not_mem_internalName h (by decide) (by decide)
    have ht : ("L" ++ internalName type ++ ";").toList ++ rest =
        'L' :: ((internalName type).toList ++ ';' :: rest) := by simp
    rw [Option.getD_none, ht, readTypes, if_neg (by decide), if_neg (by decide), if_pos rfl,
      readTypes_name _ _ hs, List.nil_append, String.ofList_toList]
  | some letter =>
    obtain ⟨c, hc, hp⟩ := primitive_of_letter hl
    obtain ⟨hpart, hclass⟩ := hp.letter
    have hclose : c ≠ ')' := fun he => absurd hpart (he ▸ by decide)
    have harray : c ≠ '[' := fun he => absurd hpart (he ▸ by decide)
    rw [Option.getD_some, hc, List.singleton_append, readTypes, if_neg hclose, if_neg harray,
      if_neg hclass, hp.name, Option.bind_some, internalName_undotted hp.undotted]

theorem readTypes_parameter {p : Parameter} (h : isQualified p.type) (rest : List Char) :
    readTypes false none (p.descriptor.toList ++ rest) =
      (readTypes false none rest).map (p.rename internalName :: ·) := by
  obtain ⟨type, varargs⟩ := p
  rw [Parameter.descriptor, String.toList_append, List.append_assoc]
  cases varargs with
  | false => exact readTypes_type h rest
  | true =>
    have ht : ∀ cs, readTypes false none ("[".toList ++ cs) = readTypes true none cs := fun cs => rfl
    exact (ht _).trans (readTypes_type h rest)

theorem not_mem_descriptor {p : Parameter} (h : isQualified p.type) {c : Char}
    (hc : isWordPart c = false) (hs : c ∉ ['/', ';', '[']) : c ∉ p.descriptor.toList := by
  simp only [List.mem_cons, List.not_mem_nil, or_false, not_or] at hs
  obtain ⟨hslash, hsemicolon, harray⟩ := hs
  have hL : c ≠ 'L' := fun he => absurd hc (he ▸ by decide)
  rw [Parameter.descriptor, String.toList_append, List.mem_append, not_or]
  constructor
  · split <;> simp [harray]
  · cases hl : primitiveLetter? p.type with
    | none => simp [hL, hsemicolon, not_mem_internalName h hc hslash]
    | some letter =>
      obtain ⟨d, hd, hp⟩ := primitive_of_letter hl
      rw [Option.getD_some, hd, List.mem_singleton]
      rintro rfl
      rw [hp.letter.1] at hc
      cases hc

def typesText (ps : List Parameter) : List Char := ps.flatMap (·.descriptor.toList)

theorem toList_methodDescriptor (ps : List Parameter) :
    (methodDescriptor ps).toList = '(' :: (typesText ps ++ [')', 'V']) := by
  simp [methodDescriptor, typesText, String.toList_join, List.flatMap_map]

section types

variable {ps : List Parameter} (h : ∀ p ∈ ps, isQualified p.type)
include h

theorem not_mem_typesText {c : Char} (hc : isWordPart c = false) (hs : c ∉ ['/', ';', '[']) :
    c ∉ typesText ps := by
  intro hm
  obtain ⟨p, hp, hd⟩ := List.mem_flatMap.mp hm
  exact not_mem_descriptor (h p hp) hc hs hd

theorem readTypes_typesText (rest : List Char) :
    readTypes false none (typesText ps ++ ')' :: rest) = some (ps.map (·.rename internalName)) := by
  induction ps with
  | nil => rfl
  | cons p ps ih =>
    rw [List.forall_mem_cons] at h
    rw [typesText, List.flatMap_cons, List.append_assoc, readTypes_parameter h.1]
    change (readTypes false none (typesText ps ++ ')' :: rest)).map _ = _
    rw [ih h.2]
    rfl

theorem readDescriptor?_methodDescriptor :
    readDescriptor? (methodDescriptor ps).toList = some (ps.map (·.rename internalName)) := by
  rw [toList_methodDescriptor]
  exact readTypes_typesText h ['V']

end types

/-- The parameters of one descriptor begin another one only if it has the same parameters and no more. -/
theorem parameters_prefix_iff {ps qs : List Parameter} (hp : ∀ p ∈ ps, isQualified p.type)
    (hq : ∀ q ∈ qs, isQualified q.type) :
    '(' :: (typesText ps ++ [')']) <+: (methodDescriptor qs).toList ↔ ps = qs := by
  constructor
  · rintro ⟨rest, hr⟩
    have hread : readDescriptor? ('(' :: (typesText ps ++ [')']) ++ rest) =
        some (ps.map (·.rename internalName)) := by
      rw [List.cons_append, List.append_assoc, readDescriptor?]
      exact readTypes_typesText hp rest
    rw [hr, readDescriptor?_methodDescriptor hq] at hread
    have hback : ∀ name, isQualified name → dottedName (internalName name) = name :=
      fun _ => dottedName_internalName
    rw [← rename_rename_parameters hback hp, ← rename_rename_parameters hback hq, Option.some.inj hread]
  · rintro rfl
    rw [toList_methodDescriptor]
    exact ⟨['V'], by simp⟩

end ObfuscationMap
