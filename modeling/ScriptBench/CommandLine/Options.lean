import ScriptBench.RuleSet

/-! The options of the command line.

Arguments are read from left to right in groups: an option with its value, if it
takes one, or the name of a file. The last value of an option counts; the first
file holds the stack elements and the second one the witness script. -/
namespace ScriptBench

structure Options where
  rules : RuleSet
  template : Option String
  /-- Whether to evaluate once and report. -/
  check : Bool
  stackFile : Option String
  witnessFile : Option String
deriving DecidableEq, Repr

/-- Why there are no options to go by. -/
inductive UsageError where
  | helpRequested
  | missingValue (flag : String)
  | invalidValue (flag value : String)
  | unknownFlag (flag : String)
  | unexpectedArgument (arg : String)
deriving DecidableEq, Repr

def UsageError.message : UsageError → String
  | helpRequested => "help requested"
  | missingValue flag => s!"{flag} needs a value"
  | invalidValue flag value => s!"invalid value '{value}' for {flag}"
  | unknownFlag flag => s!"unknown option '{flag}'"
  | unexpectedArgument arg => s!"unexpected argument '{arg}'"

namespace Options

/-- The options of an empty command line. -/
def none : Options := ⟨RuleSet.standard, .none, false, .none, .none⟩

/-- The options that take a value. -/
inductive Flag where
  | network
  | version
  | template
deriving DecidableEq, Repr

/-- What an argument is by itself. -/
inductive Argument where
  | help
  | check
  | flag (f : Flag)
  | unknown
  | file
deriving DecidableEq, Repr

/-- A single hyphen is the name of a file, and so is the empty argument. -/
def Argument.ofString (arg : String) : Argument :=
  if arg = "-h" ∨ arg = "--help" then help
  else if arg = "--check" then check
  else if arg = "--network" ∨ arg = "-n" then flag .network
  else if arg = "--version" ∨ arg = "-v" then flag .version
  else if arg = "--tx" then flag .template
  else match arg.toList with
    | '-' :: _ :: _ => unknown
    | _ => file

/-- Sets the option that is written `name` to a value. -/
def set (o : Options) (name value : String) : Flag → Except UsageError Options
  | .network =>
    match Network.ofName value with
    | .ok n => .ok { o with rules := { o.rules with network := n } }
    | .error _ => .error (.invalidValue name value)
  | .version =>
    match ScriptVersion.ofName value with
    | .ok v => .ok { o with rules := { o.rules with version := v } }
    | .error _ => .error (.invalidValue name value)
  | .template => .ok { o with template := some value }

/-- Takes the name of a file, the third of which is one too many. -/
def addFile (o : Options) (name : String) : Except UsageError Options :=
  if o.stackFile.isNone then .ok { o with stackFile := some name }
  else if o.witnessFile.isNone then .ok { o with witnessFile := some name }
  else .error (.unexpectedArgument name)

/-- Reads arguments into options that are set already. -/
def read (o : Options) : List String → Except UsageError Options
  | [] => .ok o
  | arg :: rest =>
    match Argument.ofString arg with
    | .help => .error .helpRequested
    | .check => { o with check := true }.read rest
    | .unknown => .error (.unknownFlag arg)
    | .file =>
      match o.addFile arg with
      | .ok o => o.read rest
      | .error e => .error e
    | .flag f =>
      match rest with
      | [] => .error (.missingValue arg)
      | value :: rest =>
        match o.set arg value f with
        | .ok o => o.read rest
        | .error e => .error e

/-- The options that arguments ask for, the name of the program not among them. -/
def ofArgs (args : List String) : Except UsageError Options := none.read args

/-- The files that options name. -/
def files (o : Options) : List String :=
  o.stackFile.toList ++ o.witnessFile.toList ++ o.template.toList

end Options

/-- How the program is used. -/
def usage (program : String) : String :=
  s!"Usage: {program} [--network bitcoin|liquid] [--version segwit|tapscript] " ++
  "[--tx template.json] [--check] [STACK_FILE [WITNESS_FILE]]\n" ++
  "\n" ++
  "Options:\n" ++
  "  --network   rule set to evaluate with (default: bitcoin)\n" ++
  "  --version   script version (default: segwit)\n" ++
  "  --tx        transaction template JSON for locktime and introspection opcodes\n" ++
  "  --check     evaluate once, print every line's stack and exit\n" ++
  "  -h, --help  show this message"

end ScriptBench
