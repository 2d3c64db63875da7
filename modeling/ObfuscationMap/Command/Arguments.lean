/-!
Arguments of a command. An argument that begins with a hyphen is an option: the rest of it is a long name
behind two hyphens or a letter behind one. The value of an option follows an equals sign, its letter, or as
an argument of its own that is no option. Everything else, and all that follows a `--`, is an operand.

An option that asks for information about the program ends the reading, whatever stands behind it.
-/

namespace ObfuscationMap

inductive Notice
  | help | version
  deriving DecidableEq, Repr

inductive OptionRole
  | flag
  | valued
  | notice (n : Notice)
  deriving DecidableEq, Repr

structure OptionForm where
  name : String
  letter : Option Char
  role : OptionRole
  deriving DecidableEq, Repr

inductive Argument
  | operand (text : String)
  | option (form : OptionForm) (value : Option String)
  | endOfOptions
  | unknown
  deriving DecidableEq, Repr

namespace Argument

def looksLikeOption (argument : List Char) : Bool :=
  match argument with
  | '-' :: _ :: _ => true
  | _ => false

/-- A value behind a name or a letter. Equals signs in front do not belong to it. -/
def attached (cs : List Char) : String := String.ofList (cs.dropWhile (· == '='))

def ofForm (form : Option OptionForm) (value : Option String) : Argument :=
  match form with
  | some f => .option f (if f.role = .valued then value else none)
  | none => .unknown

def classify (forms : List OptionForm) (argument : String) : Argument :=
  match argument.toList with
  | ['-', '-'] => .endOfOptions
  | '-' :: '-' :: cs =>
    let body := cs.dropWhile (· == '-')
    let name := String.ofList (body.takeWhile (· != '='))
    ofForm (forms.find? fun f => f.name == name)
      (if '=' ∈ body then some (attached (body.dropWhile (· != '='))) else none)
  | '-' :: c :: cs =>
    ofForm (forms.find? fun f => f.letter == some c) (if cs = [] then none else some (attached cs))
  | _ => .operand argument

end Argument

structure GivenOption where
  form : OptionForm
  value : Option String
  deriving DecidableEq, Repr

inductive Ending
  | complete
  | notice (n : Notice)
  | unknown (argument : String)
  deriving DecidableEq, Repr

structure Arguments where
  options : List GivenOption
  operands : List String
  ending : Ending
  deriving DecidableEq, Repr

namespace Arguments

def addOption (form : OptionForm) (value : Option String) (a : Arguments) : Arguments :=
  { a with options := ⟨form, value⟩ :: a.options }

def addOperand (operand : String) (a : Arguments) : Arguments :=
  { a with operands := operand :: a.operands }

def read (forms : List OptionForm) : List String → Arguments
  | [] => ⟨[], [], .complete⟩
  | a :: as =>
    match Argument.classify forms a with
    | .endOfOptions => ⟨[], as, .complete⟩
    | .unknown => ⟨[], [], .unknown a⟩
    | .operand o => (read forms as).addOperand o
    | .option f value =>
      match f.role, value, as with
      | .notice n, _, _ => ⟨[], [], .notice n⟩
      | .valued, none, v :: vs =>
        if Argument.looksLikeOption v.toList then (read forms (v :: vs)).addOption f none
        else (read forms vs).addOption f (some v)
      | _, _, as => (read forms as).addOption f value
termination_by as => as.length

def has (a : Arguments) (form : OptionForm) : Bool := a.options.any fun o => o.form == form

def value? (a : Arguments) (form : OptionForm) : Option String :=
  (a.options.find? fun o => o.form == form).bind (·.value)

end Arguments

end ObfuscationMap
