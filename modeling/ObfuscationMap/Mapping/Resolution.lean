import ObfuscationMap.Mapping

/-!
Settling the names of a script. Parameter types are looked up among the imports of the whole script,
once and by their full text. Where no obfuscated name is
declared, the own name takes its place.
-/

namespace ObfuscationMap

/-- What the imports of a script call by which key. A later import takes over the key of an earlier one. -/
def importTable (imports : List Import) : OrderedMap String :=
  .ofList (imports.map fun i => (i.key, i.path))

def resolveType (table : OrderedMap String) (type : String) : String := (table.find? type).getD type

namespace Parameter

def resolve (table : OrderedMap String) (p : Parameter) : Parameter :=
  ⟨resolveType table p.type, p.varargs⟩

end Parameter

def FieldDecl.resolve (f : FieldDecl) : FieldMapping :=
  ⟨⟨f.name, f.obfuscated.getD f.name, f.aliases⟩, f.metadata⟩

def MethodDecl.resolve (table : OrderedMap String) (m : MethodDecl) : MethodMapping :=
  ⟨⟨m.name, m.obfuscated.getD m.name, m.aliases⟩, m.parameters.map (·.resolve table), m.javadoc,
    m.metadata⟩

mutual

def ClassDecl.resolve (table : OrderedMap String) : ClassDecl → ClassMapping
  | ⟨name, obfuscated, metadata, methods, fields, inner, aliases⟩ =>
    ⟨⟨name, obfuscated.getD name, aliases⟩, metadata, methods.map (·.resolve table),
      fields.map (·.resolve), resolveClasses table inner⟩

def resolveClasses (table : OrderedMap String) : List ClassDecl → List ClassMapping
  | [] => []
  | c :: cs => c.resolve table :: resolveClasses table cs

end

theorem resolveClasses_eq_map (table : OrderedMap String) (cs : List ClassDecl) :
    resolveClasses table cs = cs.map (·.resolve table) := by
  induction cs with
  | nil => rfl
  | cons c cs ih => simp [resolveClasses, ih]

theorem ClassDecl.resolve_eq (table : OrderedMap String) (d : ClassDecl) : d.resolve table =
    ⟨⟨d.name, d.obfuscated.getD d.name, d.aliases⟩, d.metadata, d.methods.map (·.resolve table),
      d.fields.map (·.resolve), d.inner.map (·.resolve table)⟩ := by
  obtain ⟨name, obfuscated, metadata, methods, fields, inner, aliases⟩ := d
  rw [ClassDecl.resolve, resolveClasses_eq_map]

def Script.resolve (s : Script) : Mapping :=
  let table := importTable s.imports
  ⟨s.package.getD "", table, resolveClasses table s.classes⟩

theorem Script.classes_resolve (s : Script) :
    s.resolve.classes = s.classes.map (·.resolve (importTable s.imports)) :=
  resolveClasses_eq_map _ _

end ObfuscationMap
