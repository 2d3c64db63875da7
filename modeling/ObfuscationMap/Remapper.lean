import ObfuscationMap.Descriptor
import ObfuscationMap.Session

/-!
Renaming of the names that a virtual machine uses. Classes are addressed by their internal
names, and what has no mapping keeps its name.
-/

namespace ObfuscationMap

structure OwnedClass where
  owner : Mapping
  mapping : ClassMapping

structure Remapper where
  session : Session
  classes : Std.HashMap String OwnedClass

namespace Remapper

def ownedClasses (sources : List Mapping) : List OwnedClass :=
  sources.flatMap fun t => t.classes.map fun c => ⟨t, c⟩

def address (c : OwnedClass) : String := internalName (c.owner.fullName c.mapping)

/-- Of several classes with one internal name the first one counts. -/
def ofSession (s : Session) : Remapper :=
  ⟨s, (ownedClasses s.index.sources).foldl (fun m c => m.insertIfNew (address c) c) ∅⟩

def useVersion (r : Remapper) (v : Version) : Remapper := { r with session := r.session.withVersion v }

def version (r : Remapper) : Version := r.session.version

def mapClass (r : Remapper) (name : String) : String :=
  match r.classes[name]? with
  | some c => internalName (c.owner.obfuscatedFullName c.mapping r.version)
  | none => name

def mapField (r : Remapper) (owner name : String) : String :=
  match r.classes[owner]?.bind fun c => c.mapping.findField name r.version with
  | some f => f.resolve r.version
  | none => name

def parameterPart? (descriptor : List Char) : Option (List Char) :=
  if ')' ∈ descriptor then some (descriptor.takeWhile (· != ')') ++ [')']) else none

def findOverload (c : ClassMapping) (name descriptor : String) : Option MethodMapping :=
  (parameterPart? descriptor.toList).bind fun part =>
    c.methods.find? fun m =>
      m.name == name && part.isPrefixOf (methodDescriptor m.parameters).toList

def mapMethod (r : Remapper) (owner name descriptor : String) : String :=
  match r.classes[owner]?.bind fun c =>
    findOverload c.mapping name descriptor <|> c.mapping.findMethod name r.version with
  | some m => m.resolve r.version
  | none => name

theorem length_lt_of_dropWhile {p : Char → Bool} {c : Char} {cs rest : List Char}
    (h : cs.dropWhile p = c :: rest) : rest.length < cs.length := by
  have hl := (List.dropWhile_sublist p (l := cs)).length_le
  rw [h] at hl
  exact hl

/-- Renames what stands between an `L` and the next semicolon. An `L` that no semicolon follows begins
no name. -/
def mapReferences (rename : String → String) : List Char → List Char
  | [] => []
  | c :: cs =>
    if c = 'L' then
      match h : cs.dropWhile (· != ';') with
      | [] => 'L' :: cs
      | _ :: rest =>
        have := length_lt_of_dropWhile h
        'L' :: (rename (String.ofList (cs.takeWhile (· != ';')))).toList
          ++ ';' :: mapReferences rename rest
    else c :: mapReferences rename cs
termination_by cs => cs.length
decreasing_by all_goals (simp only [List.length_cons] at *; omega)

def mapDescriptor (r : Remapper) (descriptor : String) : String :=
  String.ofList (mapReferences r.mapClass descriptor.toList)

end Remapper

end ObfuscationMap
