import ObfuscationMap.Mapping
import Std.Data.HashMap

/-!
Classes of several mappings, found by name. The mappings are the sources of an index, and their order is
their priority. Only the outermost classes are found.

For all sources together and for each of them, tables lead from own names and from default
obfuscated names to the first class of that name. Names of single versions are searched for.
-/

namespace ObfuscationMap

/-- A class, the number of the source that declares it, and its place there. -/
structure SourcedClass where
  source : Nat
  place : Nat
  mapping : ClassMapping
  deriving Inhabited

structure NameTable where
  byName : Std.HashMap String SourcedClass
  byObfuscated : Std.HashMap String SourcedClass

namespace NameTable

def empty : NameTable := ⟨∅, ∅⟩

def add (t : NameTable) (c : SourcedClass) : NameTable :=
  ⟨t.byName.insertIfNew c.mapping.name c, t.byObfuscated.insertIfNew c.mapping.obfuscated c⟩

def ofClasses (cs : List SourcedClass) : NameTable := cs.foldl add empty

end NameTable

structure SourceIndex where
  classes : List SourcedClass
  names : NameTable

def SourceIndex.ofMapping (t : Mapping) (source : Nat) : SourceIndex :=
  let classes := t.classes.zipIdx.map fun c => ⟨source, c.2, c.1⟩
  ⟨classes, .ofClasses classes⟩

structure Index where
  sources : List Mapping
  bySource : List SourceIndex
  names : NameTable

namespace Index

def ofSources (sources : List Mapping) : Index :=
  let bySource := sources.zipIdx.map fun t => .ofMapping t.1 t.2
  ⟨sources, bySource, .ofClasses (bySource.flatMap (·.classes))⟩

def merge (is : List Index) : Index := .ofSources (is.flatMap (·.sources))

def classes (i : Index) : List SourcedClass := i.bySource.flatMap (·.classes)

end Index

def findByAlias (cs : List SourcedClass) (name : String) (v : Version) : Option SourcedClass :=
  cs.find? fun c => c.mapping.nameIn? v == some name

end ObfuscationMap
