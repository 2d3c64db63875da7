import ObfuscationMap.ClassName

/-!
The block format: a line `name -> obfuscated:` for each class, and below it an indented line for
each field and then for each method. A blank line stands between two classes.
-/

namespace ObfuscationMap.Proguard

def parameter (p : Parameter) : String := if p.varargs then p.type ++ "..." else p.type

def fieldLine (v : Version) (f : FieldMapping) : String :=
  "    " ++ f.name ++ " -> " ++ f.resolve v ++ "\n"

def methodLine (v : Version) (m : MethodMapping) : String :=
  "    " ++ m.name ++ "(" ++ ",".intercalate (m.parameters.map parameter) ++ ") -> "
    ++ m.resolve v ++ "\n"

def classBlock (t : Mapping) (v : Version) (c : ClassMapping) : String :=
  t.fullName c ++ " -> " ++ t.obfuscatedFullName c v ++ ":\n"
    ++ String.join (c.fields.map (fieldLine v)) ++ String.join (c.methods.map (methodLine v))

/-- The block of a class that has a number in its mapping. Only the first one has no blank line in front of it. -/
def numberedBlock (t : Mapping) (v : Version) (c : ClassMapping × Nat) : String :=
  (if 0 < c.2 then "\n" else "") ++ classBlock t v c.1

def emit (t : Mapping) (v : Version) : String := String.join (t.classes.zipIdx.map (numberedBlock t v))

end ObfuscationMap.Proguard
