import ObfuscationMap.Emit.Proguard
import ObfuscationMap.Emit.Srg
import ObfuscationMap.Json
import ObfuscationMap.Text.Quoted

/-!
The formats a mapping can be emitted in. A format is named by its identifier, ASCII case aside.
-/

namespace ObfuscationMap

inductive EmitFormat
  | proguard | srg
  deriving DecidableEq, Repr

namespace EmitFormat

def all : List EmitFormat := [.proguard, .srg]

def id : EmitFormat → String
  | .proguard => "proguard"
  | .srg => "srg"

def ofId? (s : String) : Option EmitFormat := all.find? fun f => f.id == s.toLower

def emit : EmitFormat → Mapping → Version → String
  | .proguard => Proguard.emit
  | .srg => Srg.emit

/-- Some mappings one after the other, where `first` tells whether nothing was emitted before them. -/
def emitInTurn (f : EmitFormat) (v : Version) : (first : Bool) → List Mapping → String
  | _, [] => ""
  | first, t :: ts => (if !first && f == .proguard then "\n" else "") ++ f.emit t v ++ f.emitInTurn v false ts

def emitAll (f : EmitFormat) (ts : List Mapping) (v : Version) : String :=
  f.emitInTurn v true (ts.filter fun t => !t.classes.isEmpty)

end EmitFormat

inductive FormatError
  | unknown (id : String)
  | notText (value : Json)

def Json.describe : Json → String
  | .null => "null"
  | .bool b => "boolean `" ++ (Json.bool b).atom ++ "`"
  | .integer n => "integer `" ++ toString n ++ "`"
  | .text s => "string " ++ Text.quoted s
  | .array _ => "sequence"
  | .object _ => "map"

namespace FormatError

def message : FormatError → String
  | .unknown id => "Invalid emit format " ++ Text.quoted id
  | .notText value => "invalid type: " ++ value.describe ++ ", expected an emit format"

end FormatError

namespace EmitFormat

def parse (s : String) : Except FormatError EmitFormat :=
  match ofId? s with
  | some f => .ok f
  | none => .error (.unknown s)

def ofJson : Json → Except FormatError EmitFormat
  | .text s => parse s
  | value => .error (.notText value)

end EmitFormat

end ObfuscationMap
