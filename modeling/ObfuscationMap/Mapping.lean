import ObfuscationMap.Script

/-!
Mappings: what a script says once its names are settled. Everything that is renamed has its own
name, an obfuscated name that holds by default, and aliases, the names it has in single versions. The
first live alias of a version counts, and where there is none the default does.
-/

namespace ObfuscationMap

abbrev Version := Option String

structure Renaming where
  name : String
  obfuscated : String
  aliases : List Alias
  deriving DecidableEq, Inhabited

namespace Renaming

def liveAliases (r : Renaming) : List Alias := r.aliases.filter fun a => !a.removed

def nameIn? (r : Renaming) : Version → Option String
  | none => none
  | some v => (r.aliases.find? fun a => a.version == v && !a.removed).map (·.name)

def resolve (r : Renaming) (v : Version) : String := (r.nameIn? v).getD r.obfuscated

end Renaming

structure FieldMapping extends Renaming where
  metadata : Metadata
  deriving DecidableEq, Inhabited

structure MethodMapping extends Renaming where
  parameters : List Parameter
  javadoc : Option String
  metadata : Metadata
  deriving DecidableEq, Inhabited

structure ClassMapping extends Renaming where
  metadata : Metadata
  methods : List MethodMapping
  fields : List FieldMapping
  inner : List ClassMapping
  deriving Inhabited

structure Mapping where
  package : String
  imports : OrderedMap String
  classes : List ClassMapping
  deriving Inhabited

def MethodMapping.signature (m : MethodMapping) : String :=
  m.name ++ "(" ++ ",".intercalate (m.parameters.map (·.type)) ++ ")"

/-- Finds a member by a name it may go by. Any own name comes before any name of the version, and
that before any default name. -/
def findMember {α : Type} (names : α → Renaming) (members : List α) (name : String) (v : Version) :
    Option α :=
  (members.find? fun m => (names m).name == name)
    <|> (members.find? fun m => (names m).nameIn? v == some name)
    <|> (members.find? fun m => (names m).obfuscated == name)

namespace ClassMapping

def findMethod (c : ClassMapping) (name : String) (v : Version) : Option MethodMapping :=
  findMember (·.toRenaming) c.methods name v

def findField (c : ClassMapping) (name : String) (v : Version) : Option FieldMapping :=
  findMember (·.toRenaming) c.fields name v

def allLiveAliases (c : ClassMapping) : List Alias :=
  c.liveAliases ++ c.methods.flatMap (·.liveAliases) ++ c.fields.flatMap (·.liveAliases)

end ClassMapping

mutual

def ClassMapping.count : ClassMapping → Nat
  | ⟨_, _, _, _, inner⟩ => 1 + countClasses inner

def countClasses : List ClassMapping → Nat
  | [] => 0
  | c :: cs => c.count + countClasses cs

end

def Mapping.classCount (t : Mapping) : Nat := countClasses t.classes

end ObfuscationMap
