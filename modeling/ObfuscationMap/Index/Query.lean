import ObfuscationMap.Index
import ObfuscationMap.Text.Lowercase

/-!
Questions to an index. Each takes the version that names are looked up in. A class goes by its own
name, by its default obfuscated name and by the name of the version; which of these comes first depends
on the question.
-/

namespace ObfuscationMap.Index

/-- The class that goes by an obfuscated name. A name of the version comes before any default name. -/
def findObfuscated (i : Index) (name : String) (v : Version) : Option SourcedClass :=
  findByAlias i.classes name v <|> i.names.byObfuscated[name]?

def deobfuscateWithSource (i : Index) (name : String) (v : Version) : Option (String × Nat) :=
  (i.findObfuscated name v).map fun c => (c.mapping.name, c.source)

def deobfuscate (i : Index) (name : String) (v : Version) : Option String :=
  (i.deobfuscateWithSource name v).map Prod.fst

def obfuscateWithSource (i : Index) (name : String) (v : Version) : Option (String × Nat) :=
  i.names.byName[name]?.map fun c => (c.mapping.resolve v, c.source)

def obfuscate (i : Index) (name : String) (v : Version) : Option String :=
  (i.obfuscateWithSource name v).map Prod.fst

def deobfuscateAll (i : Index) (name : String) (v : Version) : List (String × Nat) :=
  i.bySource.filterMap fun s =>
    (findByAlias s.classes name v <|> s.names.byObfuscated[name]?).map
      fun c => (c.mapping.name, c.source)

def obfuscateAll (i : Index) (name : String) (v : Version) : List (String × Nat) :=
  i.bySource.filterMap fun s => s.names.byName[name]?.map fun c => (c.mapping.resolve v, c.source)

/-- A class by its own name, by its default name, or by its name in the version. -/
def findIn (names : NameTable) (cs : List SourcedClass) (name : String) (v : Version) :
    Option SourcedClass :=
  names.byName[name]? <|> names.byObfuscated[name]? <|> findByAlias cs name v

def findClass (i : Index) (name : String) (v : Version) : Option SourcedClass :=
  findIn i.names i.classes name v

def findAllClasses (i : Index) (name : String) (v : Version) : List SourcedClass :=
  i.bySource.filterMap fun s => findIn s.names s.classes name v

def findMethod (i : Index) (className name : String) (v : Version) : Option MethodMapping :=
  (i.findClass className v).bind fun c => c.mapping.findMethod name v

def findField (i : Index) (className name : String) (v : Version) : Option FieldMapping :=
  (i.findClass className v).bind fun c => c.mapping.findField name v

def calledExactly (name : String) (v : Version) (c : SourcedClass) : Bool :=
  c.mapping.name == name || c.mapping.nameIn? v == some name

def calledRoughly (letters : List Char) (c : SourcedClass) : Bool :=
  (c.mapping.name :: c.mapping.obfuscated :: c.mapping.liveAliases.map (·.name)).any
    fun n => Text.occursIn letters (Text.lowercase n)

/-- The class that suits the name best: one called exactly so, where a version is given, then one of that
own or default name, then one with the name inside one of its own. -/
def findBest (i : Index) (name : String) (v : Version) : Option SourcedClass :=
  (if v.isSome then i.classes.find? (calledExactly name v) else none)
    <|> i.names.byName[name]? <|> i.names.byObfuscated[name]?
    <|> i.classes.find? (calledRoughly (Text.lowercase name))

def aliases (i : Index) : List Alias := i.classes.flatMap fun c => c.mapping.allLiveAliases

def findByVersion (i : Index) (version : String) : List Alias :=
  i.aliases.filter fun a => a.version == version

def allVersions (i : Index) : List String :=
  i.aliases.foldl (fun vs a => if a.version ∈ vs then vs else vs ++ [a.version]) []

end ObfuscationMap.Index
