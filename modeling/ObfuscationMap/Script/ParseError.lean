import ObfuscationMap.Token

/-!
What a script lacks when it cannot be read. A mismatch tells what was wanted and at which token; a parse
error puts that into a place and words.
-/

namespace ObfuscationMap

inductive MemberSort
  | method | field
  deriving DecidableEq, Repr

def MemberSort.word : MemberSort → String
  | .method => "method"
  | .field => "field"

inductive Expected
  | packageName | packageEnd
  | importPath | importAlias | importEnd
  | className | obfuscatedClassName | classBody | classEnd
  | memberName (s : MemberSort) | obfuscatedMemberName (s : MemberSort)
  | memberBodyEnd (s : MemberSort) | memberEnd (s : MemberSort)
  | parameterType | parametersEnd
  | namePart
  | aliasesBody | aliasesEnd | removedVersion | removedEnd | aliasName | aliasEnd
  | metadataKey | metadataEquals | metadataValue | metadataEnd
  deriving DecidableEq, Repr

def Expected.describe : Expected → String
  | .packageName => "package name"
  | .packageEnd => "';' after package declaration"
  | .importPath => "import path"
  | .importAlias => "alias name after 'as'"
  | .importEnd => "';' after import declaration"
  | .className => "class name"
  | .obfuscatedClassName => "obfuscated class name"
  | .classBody => "'\x7b' after class declaration"
  | .classEnd => "'\x7d' after class body"
  | .memberName s => s.word ++ " name"
  | .obfuscatedMemberName s => "obfuscated " ++ s.word ++ " name"
  | .memberBodyEnd s => "'\x7d' after " ++ s.word ++ " body"
  | .memberEnd s => "';' after " ++ s.word ++ " declaration"
  | .parameterType => "parameter type"
  | .parametersEnd => "')' after parameters"
  | .namePart => "identifier after '.'"
  | .aliasesBody => "'\x7b' after 'aliases'"
  | .aliasesEnd => "'\x7d' after aliases block"
  | .removedVersion => "version after 'removed'"
  | .removedEnd => "';' after removed declaration"
  | .aliasName => "obfuscated name"
  | .aliasEnd => "';' after alias entry"
  | .metadataKey => "metadata key"
  | .metadataEquals => "'=' after metadata key"
  | .metadataValue => "string value for metadata"
  | .metadataEnd => "']' after metadata"

/-- What was wanted, and the token that stands there instead, none when no token is left. -/
structure Mismatch where
  expected : Expected
  found : Option Token
  deriving DecidableEq, Repr

structure ParseError where
  expected : Expected
  found : String
  position : Position
  deriving DecidableEq, Repr

def ParseError.message (e : ParseError) : String :=
  "Expected " ++ e.expected.describe ++ " at " ++ e.position.describe ++ ", found " ++ e.found

def Mismatch.toParseError (m : Mismatch) (inputEnd : Position) : ParseError :=
  let token := m.found.getD (.eof inputEnd)
  ⟨m.expected, token.describe, token.position⟩

end ObfuscationMap
