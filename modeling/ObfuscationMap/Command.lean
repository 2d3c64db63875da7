import ObfuscationMap.Command.Arguments
import ObfuscationMap.Emit.Format

/-!
Commands, and the command lines that ask for them. The first argument is the word of the command, the
others are its options and the files it works on. No option may be given twice.
-/

namespace ObfuscationMap

inductive Command
  | check (asJson : Bool) (files : List String)
  | emit (format : EmitFormat) (version : Version) (out : Option String) (files : List String)
  | dump (file : String)
  | lookup (version : Version) (name : String) (member : Option String) (files : List String)
  | versions (files : List String)
  deriving DecidableEq, Repr

def Command.paths : Command → List String
  | .check _ ps | .lookup _ _ _ ps | .versions ps => ps
  | .emit _ _ out ps => out.toList ++ ps
  | .dump p => [p]

def jsonOption : OptionForm := ⟨"json", none, .flag⟩
def formatOption : OptionForm := ⟨"format", some 'f', .valued⟩
def aliasOption : OptionForm := ⟨"alias", some 'a', .valued⟩
def outOption : OptionForm := ⟨"out", some 'o', .valued⟩
def nameOption : OptionForm := ⟨"name", some 'n', .valued⟩
def memberOption : OptionForm := ⟨"member", some 'm', .valued⟩
def helpOption : OptionForm := ⟨"help", some 'h', .notice .help⟩
def versionOption : OptionForm := ⟨"version", some 'V', .notice .version⟩

def noticeOptions : List OptionForm := [helpOption, versionOption]

inductive CommandWord
  | check | emit | dump | lookup | versions
  deriving DecidableEq, Repr

namespace CommandWord

def all : List CommandWord := [.check, .emit, .dump, .lookup, .versions]

def spelling : CommandWord → String
  | .check => "check"
  | .emit => "emit"
  | .dump => "dump"
  | .lookup => "lookup"
  | .versions => "versions"

def ofWord? (word : String) : Option CommandWord := all.find? fun w => w.spelling == word

def options : CommandWord → List OptionForm
  | .check => [jsonOption]
  | .emit => [formatOption, aliasOption, outOption]
  | .lookup => [aliasOption, nameOption, memberOption]
  | .dump | .versions => []

def usage : CommandWord → String
  | .check => "check [--json] FILE..."
  | .emit => "emit -f|--format FORMAT [-a|--alias VERSION] [-o|--out FILE] FILE..."
  | .dump => "dump FILE"
  | .lookup => "lookup [-a|--alias VERSION] -n|--name NAME [-m|--member MEMBER] FILE..."
  | .versions => "versions FILE..."

end CommandWord

inductive Request
  | command (c : Command)
  | notice (n : Notice)
  deriving DecidableEq, Repr

inductive UsageError
  | noCommand
  | unknownCommand (word : String)
  | unknownOption (argument : String)
  | repeatedOption (name : String)
  | missingValue (name : String)
  | missingOption (name : String)
  | missingFile
  | surplusFile (name : String)
  | format (e : FormatError)

def UsageError.message : UsageError → String
  | .noCommand => "a command is required"
  | .unknownCommand w => "unknown command " ++ Text.quoted w
  | .unknownOption a => "unknown option " ++ Text.quoted a
  | .repeatedOption n => "option --" ++ n ++ " is given more than once"
  | .missingValue n => "option --" ++ n ++ " has no value"
  | .missingOption n => "option --" ++ n ++ " is required"
  | .missingFile => "a file is required"
  | .surplusFile f => "only one file is allowed, found " ++ Text.quoted f
  | .format e => e.message

namespace Arguments

def required (a : Arguments) (form : OptionForm) : Except UsageError String :=
  match a.value? form with
  | some v => .ok v
  | none => .error (.missingOption form.name)

def files (a : Arguments) : Except UsageError (List String) :=
  if a.operands = [] then .error .missingFile else .ok a.operands

def file (a : Arguments) : Except UsageError String :=
  match a.operands with
  | [f] => .ok f
  | [] => .error .missingFile
  | _ :: f :: _ => .error (.surplusFile f)

def optionFault? (a : Arguments) : Option UsageError :=
  a.options.findSome? fun o =>
    if 1 < (a.options.map (·.form)).count o.form then some (.repeatedOption o.form.name)
    else if o.form.role = .valued ∧ o.value = none then some (.missingValue o.form.name)
    else none

end Arguments

namespace CommandWord

def command (w : CommandWord) (a : Arguments) : Except UsageError Command := do
  match w with
  | .check => return .check (a.has jsonOption) (← a.files)
  | .emit =>
    let id ← a.required formatOption
    let files ← a.files
    let format ← (EmitFormat.parse id).mapError .format
    return .emit format (a.value? aliasOption) (a.value? outOption) files
  | .dump => return .dump (← a.file)
  | .lookup =>
    let name ← a.required nameOption
    return .lookup (a.value? aliasOption) name (a.value? memberOption) (← a.files)
  | .versions => return .versions (← a.files)

/-- What the arguments after the word ask for. A file too many is noticed where it stands, everything
else that is amiss with known options only after all of them are read. -/
def request (w : CommandWord) (as : List String) : Except UsageError Request :=
  let a := Arguments.read (w.options ++ noticeOptions) as
  match w, a.operands with
  | .dump, _ :: f :: _ => .error (.surplusFile f)
  | _, _ =>
    match a.ending with
    | .unknown o => .error (.unknownOption o)
    | .notice n => .ok (.notice n)
    | .complete =>
      match a.optionFault? with
      | some e => .error e
      | none => (w.command a).map .command

end CommandWord

namespace Request

def helpWord : String := "help"

def topics : List String := helpWord :: CommandWord.all.map (·.spelling)

def general (argument : String) : Except UsageError Request :=
  match Argument.classify noticeOptions argument with
  | .option ⟨_, _, .notice n⟩ _ => .ok (.notice n)
  | .operand w => .error (.unknownCommand w)
  | _ => .error (.unknownOption argument)

def help : List String → Except UsageError Request
  | [] => .ok (.notice .help)
  | [t] => if t ∈ topics then .ok (.notice .help) else .error (.unknownCommand t)
  | _ :: t :: _ => .error (.unknownCommand t)

def ofArguments : List String → Except UsageError Request
  | [] => .error .noCommand
  | a :: as =>
    match CommandWord.ofWord? a with
    | some w => w.request as
    | none => if a = helpWord then help as else general a

end Request

end ObfuscationMap
