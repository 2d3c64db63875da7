import ObfuscationMap.Descriptor

/-!
The line format: one line for each class, field and method, with internal names, the obfuscated name
before the own one.
-/

namespace ObfuscationMap.Srg

structure ClassNames where
  own : String
  obfuscated : String

def ClassNames.of (t : Mapping) (v : Version) (c : ClassMapping) : ClassNames :=
  ⟨internalName (t.fullName c), internalName (t.obfuscatedFullName c v)⟩

def classLine (n : ClassNames) : String := "CL: " ++ n.obfuscated ++ " " ++ n.own ++ "\n"

def fieldLine (n : ClassNames) (v : Version) (f : FieldMapping) : String :=
  "FD: " ++ n.obfuscated ++ "/" ++ f.resolve v ++ " " ++ n.own ++ "/" ++ f.name ++ "\n"

def methodLine (n : ClassNames) (v : Version) (m : MethodMapping) : String :=
  let d := methodDescriptor m.parameters
  "MD: " ++ n.obfuscated ++ "/" ++ m.resolve v ++ " " ++ d ++ " "
    ++ n.own ++ "/" ++ m.name ++ " " ++ d ++ "\n"

def classLines (t : Mapping) (v : Version) (c : ClassMapping) : String :=
  let n := ClassNames.of t v c
  classLine n ++ String.join (c.fields.map (fieldLine n v))
    ++ String.join (c.methods.map (methodLine n v))

def emit (t : Mapping) (v : Version) : String := String.join (t.classes.map (classLines t v))

end ObfuscationMap.Srg
