import ObfuscationMap.Index.Query

/-!
Sessions: an index together with the version that one user looks names up in. Sessions may share an
index, and changing the version of one leaves all others as they are. A question goes to the index of a session,
with the version of the session unless it brings its own.
-/

namespace ObfuscationMap

structure Session where
  index : Index
  version : Version

namespace Session

def ofSources (sources : List Mapping) : Session := ⟨.ofSources sources, none⟩

def withVersion (s : Session) (v : Version) : Session := ⟨s.index, v⟩

def merge (ss : List Session) : Session := ⟨.ofSources (ss.flatMap (·.index.sources)), none⟩

end Session

inductive Question
  | sources
  | classes
  | deobfuscate (name : String)
  | obfuscate (name : String)
  | deobfuscateWithSource (name : String)
  | obfuscateWithSource (name : String)
  | deobfuscateAll (name : String)
  | obfuscateAll (name : String)
  | findClass (name : String)
  | findBest (name : String)
  | findAllClasses (name : String)
  | findMethod (className name : String)
  | findField (className name : String)
  | findByVersion (version : String)
  | allVersions
  deriving DecidableEq, Repr

inductive Answer
  | sources (ts : List Mapping)
  | name (name : Option String)
  | sourcedName (name : Option (String × Nat))
  | sourcedNames (names : List (String × Nat))
  | sourcedClass (c : Option SourcedClass)
  | sourcedClasses (cs : List SourcedClass)
  | method (m : Option MethodMapping)
  | field (f : Option FieldMapping)
  | aliases (as : List Alias)
  | versions (vs : List String)

def Index.answer (i : Index) (v : Version) : Question → Answer
  | .sources => .sources i.sources
  | .classes => .sourcedClasses i.classes
  | .deobfuscate name => .name (i.deobfuscate name v)
  | .obfuscate name => .name (i.obfuscate name v)
  | .deobfuscateWithSource name => .sourcedName (i.deobfuscateWithSource name v)
  | .obfuscateWithSource name => .sourcedName (i.obfuscateWithSource name v)
  | .deobfuscateAll name => .sourcedNames (i.deobfuscateAll name v)
  | .obfuscateAll name => .sourcedNames (i.obfuscateAll name v)
  | .findClass name => .sourcedClass (i.findClass name v)
  | .findBest name => .sourcedClass (i.findBest name v)
  | .findAllClasses name => .sourcedClasses (i.findAllClasses name v)
  | .findMethod className name => .method (i.findMethod className name v)
  | .findField className name => .field (i.findField className name v)
  | .findByVersion version => .aliases (i.findByVersion version)
  | .allVersions => .versions i.allVersions

/-- What is done with a list of sessions. Sessions are named by their place in it. -/
inductive SessionStep
  | setVersion (session : Nat) (v : Version)
  | addWithVersion (session : Nat) (v : Version)
  | addClone (session : Nat)
  | addMerged (sessions : List Nat)
  | ask (session : Nat) (question : Question) (at? : Option Version)
  deriving DecidableEq, Repr

namespace SessionStep

/-- The sessions after a step. A step that names a session which is not there changes nothing, and such
sessions add nothing to a merged one. -/
def apply (sessions : List Session) : SessionStep → List Session
  | .setVersion n v => sessions.modify n (·.withVersion v)
  | .addWithVersion n v => sessions ++ (sessions[n]?.map (·.withVersion v)).toList
  | .addClone n => sessions ++ sessions[n]?.toList
  | .addMerged ns => sessions ++ [.merge (ns.filterMap (sessions[·]?))]
  | .ask .. => sessions

def answer? (sessions : List Session) : SessionStep → Option Answer
  | .ask n question at? => sessions[n]?.map fun s => s.index.answer (at?.getD s.version) question
  | _ => none

end SessionStep

namespace Session

def run (sessions : List Session) (steps : List SessionStep) : List Session :=
  steps.foldl SessionStep.apply sessions

def transcript (sessions : List Session) : List SessionStep → List (Option Answer)
  | [] => []
  | step :: steps => step.answer? sessions :: transcript (step.apply sessions) steps

end Session

end ObfuscationMap
