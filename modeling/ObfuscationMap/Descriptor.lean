import ObfuscationMap.ClassName

/-!
Descriptors of types and methods as a virtual machine spells them. Results are not recorded in mappings,
so every method counts as one without.
-/

namespace ObfuscationMap

def primitiveLetter? (type : String) : Option String :=
  match type with
  | "byte" => some "B"
  | "char" => some "C"
  | "double" => some "D"
  | "float" => some "F"
  | "int" => some "I"
  | "long" => some "J"
  | "short" => some "S"
  | "boolean" => some "Z"
  | "void" => some "V"
  | _ => none

namespace Parameter

def descriptor (p : Parameter) : String :=
  (if p.varargs then "[" else "") ++
    (primitiveLetter? p.type).getD ("L" ++ internalName p.type ++ ";")

end Parameter

def methodDescriptor (ps : List Parameter) : String :=
  "(" ++ String.join (ps.map (·.descriptor)) ++ ")V"

end ObfuscationMap
