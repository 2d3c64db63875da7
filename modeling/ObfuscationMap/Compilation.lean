import ObfuscationMap.Mapping.Resolution
import ObfuscationMap.Script.Parse
import ObfuscationMap.Token.Scan

/-!
From the text of a script to its mapping.
-/

namespace ObfuscationMap

inductive CompileError
  | lex (e : LexError)
  | parse (e : ParseError)
  deriving DecidableEq, Repr

def CompileError.message : CompileError → String
  | .lex e => e.message
  | .parse e => e.message

def parseSource (source : String) : Except CompileError Script :=
  match tokenize source with
  | .error e => .error (.lex e)
  | .ok ts => (parse ts).mapError .parse

def compile (source : String) : Except CompileError Mapping :=
  (parseSource source).map (·.resolve)

end ObfuscationMap
