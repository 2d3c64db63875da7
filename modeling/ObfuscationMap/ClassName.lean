import ObfuscationMap.Mapping

/-!
Full names of classes. A class without a dot in its name belongs to the package of its mapping. Inside
a virtual machine the parts of a name are separated by slashes.
-/

namespace ObfuscationMap

def qualify (package name : String) : String :=
  if package = "" then name else package ++ "." ++ name

def internalName (name : String) : String := name.map fun c => if c = '.' then '/' else c

namespace Mapping

def fullName (t : Mapping) (c : ClassMapping) : String := qualify t.package c.name

def obfuscatedFullName (t : Mapping) (c : ClassMapping) (v : Version) : String :=
  let name := c.resolve v
  if '.' ∈ name.toList then name else qualify t.package name

end Mapping

end ObfuscationMap
