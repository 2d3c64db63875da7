import ObfuscationMap.Proofs.Json.Layouts
import ObfuscationMap.Command.Run

/-!
A mapping read back from the JSON text it is dumped to. The members of an object are found by their keys, and
those that are left out where there is nothing to say have that as their value. Objects that stand for maps keep
the order of their members.
-/

namespace ObfuscationMap

namespace Json

variable {α : Type}

def text? : Json → Option String
  | text s => some s
  | _ => none

def flag? : Json → Option Bool
  | bool b => some b
  | _ => none

def list? (read : Json → Option α) : Json → Option (List α)
  | array items => items.mapM read
  | _ => none

def member? (key : String) : Json → Option Json
  | object ms => (ms.find? fun m => m.1 == key).map (·.2)
  | _ => none

def required (key : String) (read : Json → Option α) (j : Json) : Option α := (j.member? key).bind read

def optional (key : String) (read : Json → Option α) (absent : α) (j : Json) : Option α :=
  match j.member? key with
  | some m => read m
  | none => some absent

@[simp] theorem text?_text (s : String) : (text s).text? = some s := rfl

@[simp] theorem flag?_bool (b : Bool) : (bool b).flag? = some b := rfl

section members

variable (key k : String) (read : Json → Option α) (absent : α) (j : Json) (ms : List (String × Json))

theorem member?_cons : (object ((k, j) :: ms)).member? key = if k = key then some j else (object ms).member? key := by
  by_cases h : k = key <;> simp [member?, h]

@[simp] theorem required_cons : (object ((k, j) :: ms)).required key read =
    if k = key then read j else (object ms).required key read := by
  rw [required, member?_cons]
  split <;> rfl

@[simp] theorem optional_cons : (object ((k, j) :: ms)).optional key read absent =
    if k = key then read j else (object ms).optional key read absent := by
  by_cases h : k = key
  · rw [optional, member?_cons, if_pos h, if_pos h]
  · rw [optional, member?_cons, if_neg h, if_neg h]
    rfl

@[simp] theorem optional_nil : (object []).optional key read absent = some absent := rfl

end members

theorem mapM_written {β : Type} {read : β → Option α} {write : α → β} (h : ∀ a, read (write a) = some a)
    (as : List α) : (as.map write).mapM read = some as := by
  have hread : read ∘ write = fun a => pure a := funext h
  rw [List.mapM_map, hread, List.mapM_pure, List.map_id']
  rfl

theorem list?_map {read : Json → Option α} {write : α → Json} (h : ∀ a, read (write a) = some a) (as : List α) :
    list? read (.array (as.map write)) = some as := mapM_written h as

end Json

def textMember? (m : String × Json) : Option (String × String) := m.2.text?.map (m.1, ·)

def OrderedMap.ofJson? : Json → Option (OrderedMap String)
  | .object ms => do
    let entries ← ms.mapM textMember?
    if h : (entries.map Prod.fst).Nodup then some ⟨entries, h⟩ else none
  | _ => none

def Alias.ofJson? (j : Json) : Option Alias := do
  some {
    version := ← j.required "version" Json.text?
    name := ← j.required "obfuscated_name" Json.text?
    metadata := ← j.optional "metadata" OrderedMap.ofJson? .empty
    removed := ← j.optional "removed" Json.flag? false }

def aliasesOf? : Json → Option (List Alias) := Json.list? Alias.ofJson?

def Parameter.ofJson? (j : Json) : Option Parameter := do
  some {
    type := ← j.required "type" Json.text?
    varargs := ← j.optional "varargs" Json.flag? false }

def MethodMapping.ofJson? (j : Json) : Option MethodMapping := do
  some {
    name := ← j.required "original_name" Json.text?
    obfuscated := ← j.required "obfuscated_name" Json.text?
    parameters := ← j.required "parameters" (Json.list? Parameter.ofJson?)
    javadoc := ← j.optional "javadoc" (fun d => d.text?.map some) none
    aliases := ← j.required "aliases" aliasesOf?
    metadata := ← j.required "metadata" OrderedMap.ofJson? }

def FieldMapping.ofJson? (j : Json) : Option FieldMapping := do
  some {
    name := ← j.required "original_name" Json.text?
    obfuscated := ← j.required "obfuscated_name" Json.text?
    aliases := ← j.required "aliases" aliasesOf?
    metadata := ← j.required "metadata" OrderedMap.ofJson? }

mutual

def ClassMapping.ofJson? : Json → Option ClassMapping
  | .object ms => do
    let inner ← innerOf? ms
    let j := Json.object ms
    some {
      name := ← j.required "original_name" Json.text?
      obfuscated := ← j.required "fallback_obfuscated_name" Json.text?
      metadata := ← j.required "metadata" OrderedMap.ofJson?
      methods := ← j.required "methods" (Json.list? MethodMapping.ofJson?)
      fields := ← j.required "fields" (Json.list? FieldMapping.ofJson?)
      inner
      aliases := ← j.required "aliases" aliasesOf? }
  | _ => none

def innerOf? : List (String × Json) → Option (List ClassMapping)
  | [] => none
  | (key, j) :: ms => if key = "inner_classes" then classesOf? j else innerOf? ms

def classesOf? : Json → Option (List ClassMapping)
  | .array items => classesOfItems? items
  | _ => none

def classesOfItems? : List Json → Option (List ClassMapping)
  | [] => some []
  | j :: js => do
    let c ← ClassMapping.ofJson? j
    let cs ← classesOfItems? js
    some (c :: cs)

end

namespace Mapping

def ofJson? (j : Json) : Option Mapping := do
  some {
    package := ← j.required "package_name" Json.text?
    imports := ← j.required "imports" OrderedMap.ofJson?
    classes := ← j.required "classes" classesOf? }

def read? (text : String) : Option Mapping := (Json.read? text).bind ofJson?

end Mapping

theorem OrderedMap.ofJson?_toJson (m : OrderedMap String) : OrderedMap.ofJson? m.toJson = some m := by
  have hread : ∀ e : String × String, textMember? (e.1, .text e.2) = some e := fun _ => rfl
  rw [OrderedMap.toJson, OrderedMap.ofJson?, Json.mapM_written hread]
  exact dif_pos m.nodup

theorem Alias.ofJson?_toJson (a : Alias) : Alias.ofJson? a.toJson = some a := by
  obtain ⟨version, name, removed, metadata⟩ := a
  cases hempty : metadata.isEmpty with
  | true =>
    obtain rfl : metadata = .empty := OrderedMap.ext (List.isEmpty_iff.mp hempty)
    cases removed <;> rfl
  | false =>
    have hmetadata := metadata.ofJson?_toJson
    cases removed <;> simp [Alias.ofJson?, Alias.toJson, memberIf, hempty, hmetadata]

theorem aliasesOf?_aliasesJson (as : List Alias) : aliasesOf? (aliasesJson as) = some as :=
  Json.list?_map Alias.ofJson?_toJson as

theorem Parameter.ofJson?_toJson (p : Parameter) : Parameter.ofJson? p.toJson = some p := by
  obtain ⟨type, varargs⟩ := p
  cases varargs <;> rfl

theorem MethodMapping.ofJson?_toJson (m : MethodMapping) : MethodMapping.ofJson? m.toJson = some m := by
  obtain ⟨⟨name, obfuscated, aliases⟩, parameters, javadoc, metadata⟩ := m
  have hparameters := Json.list?_map Parameter.ofJson?_toJson parameters
  have haliases := aliasesOf?_aliasesJson aliases
  have hmetadata := metadata.ofJson?_toJson
  cases javadoc <;> simp [MethodMapping.ofJson?, MethodMapping.toJson, hparameters, haliases, hmetadata]

theorem FieldMapping.ofJson?_toJson (f : FieldMapping) : FieldMapping.ofJson? f.toJson = some f := by
  obtain ⟨⟨name, obfuscated, aliases⟩, metadata⟩ := f
  have haliases := aliasesOf?_aliasesJson aliases
  have hmetadata := metadata.ofJson?_toJson
  simp [FieldMapping.ofJson?, FieldMapping.toJson, haliases, hmetadata]

mutual

theorem ClassMapping.ofJson?_toJson : ∀ c : ClassMapping, ClassMapping.ofJson? c.toJson = some c
  | ⟨⟨name, obfuscated, aliases⟩, metadata, methods, fields, inner⟩ => by
    have hmetadata := metadata.ofJson?_toJson
    have hmethods := Json.list?_map MethodMapping.ofJson?_toJson methods
    have hfields := Json.list?_map FieldMapping.ofJson?_toJson fields
    have hinner := classesOfItems?_classesJson inner
    have haliases := aliasesOf?_aliasesJson aliases
    simp [ClassMapping.ofJson?, innerOf?, classesOf?, ClassMapping.toJson, hmetadata, hmethods, hfields, hinner,
      haliases]

theorem classesOfItems?_classesJson : ∀ cs : List ClassMapping, classesOfItems? (classesJson cs) = some cs
  | [] => rfl
  | c :: cs => by
    rw [classesJson, classesOfItems?, ClassMapping.ofJson?_toJson c, classesOfItems?_classesJson cs]
    rfl

end

namespace Mapping

theorem ofJson?_toJson (t : Mapping) : ofJson? t.toJson = some t := by
  have himports := t.imports.ofJson?_toJson
  have hclasses := classesOfItems?_classesJson t.classes
  simp [ofJson?, toJson, classesOf?, himports, hclasses]

theorem read?_layout {layout : Json → String} (h : ∀ j, Json.read? (layout j) = some j) (t : Mapping) :
    read? (layout t.toJson) = some t := by
  rw [read?, h]
  exact ofJson?_toJson t

theorem layout_eq_iff {layout : Json → String} (h : ∀ j, Json.read? (layout j) = some j) (t u : Mapping) :
    layout t.toJson = layout u.toJson ↔ t = u := by
  constructor
  · intro heq
    have ht := read?_layout h t
    rw [heq, read?_layout h u] at ht
    exact (Option.some.inj ht).symm
  · rintro rfl
    rfl

/-- A dump loses nothing, and both of its layouts stand for the same value. -/
theorem dump_lossless (t u : Mapping) :
    Json.read? t.toJson.pretty = some t.toJson ∧ Json.read? t.toJson.compact = some t.toJson ∧
    read? t.toJson.pretty = some t ∧ read? t.toJson.compact = some t ∧ read? (Command.jsonText t.toJson) = some t ∧
    (t.toJson.pretty = u.toJson.pretty ↔ t = u) ∧ (t.toJson.compact = u.toJson.compact ↔ t = u) :=
  ⟨Json.read?_pretty _, Json.read?_compact _, read?_layout Json.read?_pretty t, read?_layout Json.read?_compact t,
    read?_layout Json.read?_pretty_newline t, layout_eq_iff Json.read?_pretty t u, layout_eq_iff Json.read?_compact t u⟩

end Mapping

end ObfuscationMap
