import ObfuscationMap.Json
import ObfuscationMap.Mapping

/-!
A mapping as a JSON value. Javadoc, the metadata of an alias and the marks of removed aliases and of
variable arguments are left out where there is nothing to say.
-/

namespace ObfuscationMap

def OrderedMap.toJson (m : OrderedMap String) : Json :=
  .object (m.entries.map fun e => (e.1, .text e.2))

def memberIf (condition : Bool) (key : String) (value : Json) : List (String × Json) :=
  if condition then [(key, value)] else []

def Alias.toJson (a : Alias) : Json :=
  .object ([("version", .text a.version), ("obfuscated_name", .text a.name)]
    ++ memberIf (!a.metadata.isEmpty) "metadata" a.metadata.toJson
    ++ memberIf a.removed "removed" (.bool true))

def aliasesJson (as : List Alias) : Json := .array (as.map (·.toJson))

def Parameter.toJson (p : Parameter) : Json :=
  .object (("type", .text p.type) :: memberIf p.varargs "varargs" (.bool true))

def MethodMapping.toJson (m : MethodMapping) : Json :=
  .object ([("original_name", .text m.name), ("obfuscated_name", .text m.obfuscated),
      ("parameters", .array (m.parameters.map (·.toJson)))]
    ++ (m.javadoc.map fun d => ("javadoc", Json.text d)).toList
    ++ [("aliases", aliasesJson m.aliases), ("metadata", m.metadata.toJson)])

def FieldMapping.toJson (f : FieldMapping) : Json :=
  .object [("original_name", .text f.name), ("obfuscated_name", .text f.obfuscated),
    ("aliases", aliasesJson f.aliases), ("metadata", f.metadata.toJson)]

mutual

def ClassMapping.toJson : ClassMapping → Json
  | ⟨⟨name, obfuscated, aliases⟩, metadata, methods, fields, inner⟩ =>
    .object [("original_name", .text name), ("fallback_obfuscated_name", .text obfuscated),
      ("metadata", metadata.toJson), ("methods", .array (methods.map (·.toJson))),
      ("fields", .array (fields.map (·.toJson))), ("inner_classes", .array (classesJson inner)),
      ("aliases", aliasesJson aliases)]

def classesJson : List ClassMapping → List Json
  | [] => []
  | c :: cs => c.toJson :: classesJson cs

end

def Mapping.toJson (t : Mapping) : Json :=
  .object [("package_name", .text t.package), ("imports", t.imports.toJson),
    ("classes", .array (classesJson t.classes))]

end ObfuscationMap
