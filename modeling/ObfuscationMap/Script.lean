import ObfuscationMap.OrderedMap

/-!
Mapping scripts as they are declared. A script lists the classes, methods and fields of a
program with their obfuscated names and, for each, the names it had in single versions. Names that the
script leaves out are absent here, and parameter types are as written.
-/

namespace ObfuscationMap

abbrev Metadata := OrderedMap String

/-- The name something has in one version. A removed alias says that the version has none. -/
structure Alias where
  version : String
  name : String
  removed : Bool
  metadata : Metadata
  deriving DecidableEq, Inhabited

namespace Alias

def live (version name : String) (metadata : Metadata) : Alias := ⟨version, name, false, metadata⟩

def gone (version : String) : Alias := ⟨version, "", true, .empty⟩

end Alias

structure Parameter where
  type : String
  varargs : Bool
  deriving DecidableEq, Inhabited

/-- What stands after the last dot of a name, all of it if there is no dot. -/
def lastPart (name : String) : String :=
  String.ofList (name.toList.reverse.takeWhile (· != '.')).reverse

structure Import where
  path : String
  asName : Option String
  deriving DecidableEq, Inhabited

def Import.key (i : Import) : String := i.asName.getD (lastPart i.path)

structure FieldDecl where
  name : String
  obfuscated : Option String
  aliases : List Alias
  metadata : Metadata
  deriving DecidableEq, Inhabited

structure MethodDecl where
  name : String
  parameters : List Parameter
  obfuscated : Option String
  javadoc : Option String
  aliases : List Alias
  metadata : Metadata
  deriving DecidableEq, Inhabited

structure ClassDecl where
  name : String
  obfuscated : Option String
  metadata : Metadata
  methods : List MethodDecl
  fields : List FieldDecl
  inner : List ClassDecl
  aliases : List Alias
  deriving Inhabited

namespace ClassDecl

def ofHeader (name : String) (obfuscated : Option String) (metadata : Metadata) : ClassDecl :=
  ⟨name, obfuscated, metadata, [], [], [], []⟩

def addMethod (c : ClassDecl) (m : MethodDecl) : ClassDecl := { c with methods := c.methods ++ [m] }
def addField (c : ClassDecl) (f : FieldDecl) : ClassDecl := { c with fields := c.fields ++ [f] }
def addInner (c d : ClassDecl) : ClassDecl := { c with inner := c.inner ++ [d] }
def addAliases (c : ClassDecl) (as : List Alias) : ClassDecl := { c with aliases := c.aliases ++ as }

end ClassDecl

structure Script where
  package : Option String
  imports : List Import
  classes : List ClassDecl
  deriving Inhabited

end ObfuscationMap
