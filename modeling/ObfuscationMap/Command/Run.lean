import ObfuscationMap.Command
import ObfuscationMap.Command.Files
import ObfuscationMap.Compilation
import ObfuscationMap.Mapping.Dump
import ObfuscationMap.Mapping.Validation
import ObfuscationMap.Session

/-!
What commands do: they read files, write to the output and perhaps make a file, and they end well or with
a failure. Only a check can end badly without one, when it finds problems.
-/

namespace ObfuscationMap

inductive Failure
  | usage (e : UsageError)
  | unreadable (path : String)
  | unwritable (path : String)
  | uncompiled (path : String) (e : CompileError)
  | noClass (name : String)
  | noMember (className name : String)

namespace Failure

def describe : Failure → String
  | .usage e => "error: " ++ e.message
  | .unreadable p => "error: " ++ p ++ ": cannot be read"
  | .unwritable p => "error: " ++ p ++ ": cannot be written"
  | .uncompiled p e => "error: " ++ p ++ ": " ++ e.message
  | .noClass n => "No class matching " ++ Text.quoted n
  | .noMember c n => "No member of " ++ c ++ " matching " ++ Text.quoted n

end Failure

inductive Verdict
  | success
  | problems
  | failure (f : Failure)

structure Outcome where
  output : String
  verdict : Verdict
  files : Files

namespace Outcome

def succeeded (o : Outcome) : Bool := match o.verdict with | .success => true | _ => false

def complaint (o : Outcome) : String := match o.verdict with | .failure f => f.describe ++ "\n" | _ => ""

def fail (fs : Files) (f : Failure) : Outcome := ⟨"", .failure f, fs⟩

def ofResult (fs : Files) : Except Failure String → Outcome
  | .ok s => ⟨s, .success, fs⟩
  | .error f => fail fs f

end Outcome

namespace Files

def load (fs : Files) (path : String) : Except Failure Mapping :=
  match fs.read? path with
  | none => .error (.unreadable path)
  | some source => (compile source).mapError (.uncompiled path)

def loadAll (fs : Files) (paths : List String) : Except Failure (List Mapping) := paths.mapM fs.load

end Files

inductive Finding
  | uncompiled (e : CompileError)
  | compiled (problems : List Problem)

namespace Finding

def ofSource (source : String) : Finding :=
  match compile source with
  | .error e => .uncompiled e
  | .ok t => .compiled t.validate

def isClean : Finding → Bool | .compiled [] => true | _ => false

def messages : Finding → List String
  | .uncompiled e => [e.message]
  | .compiled ps => ps.map (·.message)

def lines (path : String) (f : Finding) : String :=
  String.join (f.messages.map fun m => path ++ ": " ++ m ++ "\n")

def toJson (path : String) (f : Finding) : Json :=
  .object [match f with
    | .uncompiled e => ("error", .text e.message)
    | .compiled ps => ("errors", .array (ps.map fun p =>
        .object [("kind", .text p.kind), ("message", .text p.message)])),
    ("file", .text path)]

end Finding

def Files.check (fs : Files) : List String → List (String × Finding) × Option String
  | [] => ([], none)
  | p :: ps =>
    match fs.read? p with
    | none => ([], some p)
    | some source => let r := fs.check ps; ((p, .ofSource source) :: r.1, r.2)

namespace Command

def jsonText (j : Json) : String := j.pretty ++ "\n"

/-- Text is printed file by file, JSON once all files are checked. -/
def runCheck (asJson : Bool) (paths : List String) (fs : Files) : Outcome :=
  let (findings, missing) := fs.check paths
  let text := String.join (findings.map fun f => f.2.lines f.1)
  let json := jsonText (.array (findings.map fun f => f.2.toJson f.1))
  match missing with
  | some p => ⟨if asJson then "" else text, .failure (.unreadable p), fs⟩
  | none =>
    ⟨if asJson then json else text, if findings.all (·.2.isClean) then .success else .problems, fs⟩

/-- A file for the output is made, and emptied, before any other is read. -/
def runEmit (format : EmitFormat) (v : Version) (out : Option String) (paths : List String)
    (fs : Files) : Outcome :=
  match out with
  | none => .ofResult fs ((fs.loadAll paths).map fun ts => format.emitAll ts v)
  | some p =>
    match fs.write? p "" with
    | none => .fail fs (.unwritable p)
    | some made =>
      match made.loadAll paths with
      | .error f => .fail made f
      | .ok ts =>
        match made.write? p (format.emitAll ts v) with
        | none => .fail made (.unwritable p)
        | some written => ⟨"", .success, written⟩

def runDump (path : String) (fs : Files) : Outcome :=
  .ofResult fs ((fs.load path).map fun t => jsonText t.toJson)

def renamingLine (name obfuscated : String) : String := name ++ " -> " ++ obfuscated ++ "\n"

def memberLines (c : ClassMapping) (name : String) (v : Version) : List String :=
  ((c.findMethod name v).map fun m => "    " ++ renamingLine m.signature (m.resolve v)).toList
    ++ ((c.findField name v).map fun f => "    " ++ renamingLine f.name (f.resolve v)).toList

def runLookup (v : Version) (name : String) (member : Option String) (paths : List String)
    (fs : Files) : Outcome :=
  match fs.loadAll paths with
  | .error f => .fail fs f
  | .ok ts =>
    let s := (Session.ofSources ts).withVersion v
    match s.index.findBest name s.version with
    | none => .fail fs (.noClass name)
    | some c =>
      let line := renamingLine c.mapping.name (c.mapping.resolve s.version)
      match member with
      | none => ⟨line, .success, fs⟩
      | some m =>
        match memberLines c.mapping m s.version with
        | [] => ⟨line, .failure (.noMember c.mapping.name m), fs⟩
        | ls => ⟨line ++ String.join ls, .success, fs⟩

def runVersions (paths : List String) (fs : Files) : Outcome :=
  .ofResult fs ((fs.loadAll paths).map fun ts =>
    String.join ((Session.ofSources ts).index.allVersions.map (· ++ "\n")))

def run (fs : Files) : Command → Outcome
  | .check asJson paths => runCheck asJson paths fs
  | .emit format v out paths => runEmit format v out paths fs
  | .dump path => runDump path fs
  | .lookup v name member paths => runLookup v name member paths fs
  | .versions paths => runVersions paths fs

end Command

def programName : String := "obfmap"

def Notice.text : Notice → String
  | .help => "usage: " ++ programName ++ " COMMAND\n"
      ++ String.join (CommandWord.all.map fun w => "  " ++ w.usage ++ "\n")
  | .version => programName ++ "\n"

def Request.run (fs : Files) : Request → Outcome
  | .command c => c.run fs
  | .notice n => ⟨n.text, .success, fs⟩

def runCommandLine (arguments : List String) (fs : Files) : Outcome :=
  match Request.ofArguments arguments with
  | .error e => .fail fs (.usage e)
  | .ok r => r.run fs

end ObfuscationMap
