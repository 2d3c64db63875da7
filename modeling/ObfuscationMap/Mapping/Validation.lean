import ObfuscationMap.Mapping

/-!
Names that a mapping uses twice. Classes must differ in their names and in their obfuscated names, the
methods of a class in their signatures and obfuscated names, its fields in both names, and the aliases of
anything in their versions. Each repetition is a problem of its own; classes inside classes are not
looked at.
-/

namespace ObfuscationMap

inductive AliasOwner
  | ofClass (name : String)
  | ofMethod (className name : String)
  | ofField (className name : String)
  deriving DecidableEq, Repr

def AliasOwner.describe : AliasOwner → String
  | .ofClass c => "class " ++ c
  | .ofMethod c m => "method " ++ c ++ "." ++ m
  | .ofField c f => "field " ++ c ++ "." ++ f

inductive Problem
  | className (name : String)
  | obfuscatedClass (name : String)
  | methodSignature (className signature : String)
  | obfuscatedMethod (className name : String)
  | fieldName (className name : String)
  | obfuscatedField (className name : String)
  | version (version : String) (owner : AliasOwner)
  deriving DecidableEq, Repr

namespace Problem

def kind : Problem → String
  | .className _ => "DUPLICATE_CLASS"
  | .obfuscatedClass _ => "DUPLICATE_OBFUSCATED_CLASS"
  | .methodSignature _ _ => "DUPLICATE_METHOD_SIGNATURE"
  | .obfuscatedMethod _ _ => "DUPLICATE_OBFUSCATED_METHOD"
  | .fieldName _ _ => "DUPLICATE_FIELD"
  | .obfuscatedField _ _ => "DUPLICATE_OBFUSCATED_FIELD"
  | .version _ _ => "DUPLICATE_VERSION"

def message : Problem → String
  | .className n => "Duplicate class name: " ++ n
  | .obfuscatedClass n => "Duplicate obfuscated class name: " ++ n
  | .methodSignature c s => "Duplicate method signature in " ++ c ++ ": " ++ s
  | .obfuscatedMethod c n => "Duplicate obfuscated method name in " ++ c ++ ": " ++ n
  | .fieldName c n => "Duplicate field name in " ++ c ++ ": " ++ n
  | .obfuscatedField c n => "Duplicate obfuscated field name in " ++ c ++ ": " ++ n
  | .version v o => "Duplicate version " ++ v ++ " in " ++ o.describe

end Problem

def reportIf (key : String) (seen : List String) (problem : Problem) : List Problem :=
  if key ∈ seen then [problem] else []

def versionProblems (owner : AliasOwner) (seen : List String) : List Alias → List Problem
  | [] => []
  | a :: as =>
    reportIf a.version seen (.version a.version owner) ++ versionProblems owner (a.version :: seen) as

def methodProblems (c : String) (signatures obfuscated : List String) : List MethodMapping → List Problem
  | [] => []
  | m :: ms =>
    reportIf m.signature signatures (.methodSignature c m.signature)
      ++ reportIf m.obfuscated obfuscated (.obfuscatedMethod c m.obfuscated)
      ++ versionProblems (.ofMethod c m.name) [] m.aliases
      ++ methodProblems c (m.signature :: signatures) (m.obfuscated :: obfuscated) ms

def fieldProblems (c : String) (names obfuscated : List String) : List FieldMapping → List Problem
  | [] => []
  | f :: fs =>
    reportIf f.name names (.fieldName c f.name)
      ++ reportIf f.obfuscated obfuscated (.obfuscatedField c f.obfuscated)
      ++ versionProblems (.ofField c f.name) [] f.aliases
      ++ fieldProblems c (f.name :: names) (f.obfuscated :: obfuscated) fs

def ClassMapping.problems (c : ClassMapping) : List Problem :=
  versionProblems (.ofClass c.name) [] c.aliases
    ++ methodProblems c.name [] [] c.methods
    ++ fieldProblems c.name [] [] c.fields

def classProblems (names obfuscated : List String) : List ClassMapping → List Problem
  | [] => []
  | c :: cs =>
    reportIf c.name names (.className c.name)
      ++ reportIf c.obfuscated obfuscated (.obfuscatedClass c.obfuscated)
      ++ c.problems
      ++ classProblems (c.name :: names) (c.obfuscated :: obfuscated) cs

def validateClasses (cs : List ClassMapping) : List Problem := classProblems [] [] cs

def Mapping.validate (t : Mapping) : List Problem := validateClasses t.classes

end ObfuscationMap
