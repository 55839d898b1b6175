import ScriptBench.CommandLine.Options
import ScriptBench.Evaluation
import ScriptBench.Preset
import ScriptBench.SourceLine
import ScriptBench.Template.Json

/-! What the program prints when it evaluates once.

Each line that ran is printed with the stack after it, an empty one by its number
alone, and a rule stands between the two panes. The bytecode follows, and on the
error stream the line that failed. -/
namespace ScriptBench

/-- What a run of the program leaves: its exit code and the text of both streams. -/
structure Outcome where
  code : Nat
  stdout : String
  stderr : String
deriving DecidableEq, Repr

namespace Report

/-- A number in at least four columns. -/
def lineNumber (n : Nat) : String :=
  let digits := toString n
  String.ofList (List.replicate (4 - digits.length) ' ') ++ digits

/-- A line in at least 32 columns. -/
def column (line : Text) : String :=
  String.ofList (line ++ List.replicate (32 - line.length) ' ')

/-- The row of line number `n`. -/
def row (n : Nat) (line : Text) : Snapshot → String
  | .blank => lineNumber n
  | .stack es =>
    lineNumber n ++ " " ++ column line ++ " [" ++ ", ".intercalate (es.map Element.display) ++ "]"

/-- The rows from line number `n` on, as far as there are snapshots; the rule stands
before the first line of the second pane. -/
def rows (boundary n : Nat) : List Text → List Snapshot → List String
  | [], _ => []
  | line :: rest, snapshots =>
    let rule := if n = boundary + 1 then ["----"] else []
    match snapshots with
    | [] => rule
    | s :: snapshots => rule ++ row n line s :: rows boundary (n + 1) rest snapshots

/-- The lines of a text that ends every line. -/
def unlines (ls : List String) : String := String.join (ls.map (· ++ "\n"))

/-- The report of an evaluation of lines. -/
def ofEvaluation (lines : List Text) (e : Evaluation) : Outcome where
  code := if e.failure.isSome then 1 else 0
  stdout := unlines (rows e.boundary 1 lines e.snapshots ++ ["bytecode: " ++ e.bytecode.hex])
  stderr := match e.failure with
    | some f => s!"Error at line {f.line}: {f.message}\n"
    | none => ""

/-- Evaluates the texts of both panes and reports. -/
def check (r : RuleSet) (stack witness : Text) (template : Option Template) : Outcome :=
  let stackLines := SourceLine.ofText stack
  let witnessLines := SourceLine.ofText witness
  ofEvaluation (stackLines ++ witnessLines) (r.evaluate stackLines witnessLines template)

end Report

/-- What the program starts from. -/
structure Sources where
  stack : Text
  witness : Text
  template : Option Template
deriving DecidableEq, Repr

namespace CommandLine

/-- The end of the program with a message on the error stream. -/
def failed (code : Nat) (message : String) : Outcome := ⟨code, "", message ++ "\n"⟩

/-- The contents of a file that has to be there. -/
def contents (files : String → Option String) (path : String) : Except Outcome Text :=
  match files path with
  | some t => .ok t.toList
  | none =>
    .error (failed 1 s!"Error: cannot read '{path}': No such file or directory (os error 2)")

/-- The contents of a pane: of its file, or else what it holds to begin with. -/
def paneText (files : String → Option String) (path : Option String) (preset : String) :
    Except Outcome Text :=
  match path with
  | some path => contents files path
  | none => .ok preset.toList

/-- The template in a file, which has to be valid. -/
def template (files : String → Option String) (path : String) : Except Outcome Template := do
  match Template.parse (← contents files path) with
  | .ok t => .ok t
  | .error flaw => .error (failed 1 s!"Error: {path}: {flaw.message}")

/-- Reads what the options name. A script whose stack elements come from a file is
empty unless it comes from a file too. -/
def sources (o : Options) (files : String → Option String) : Except Outcome Sources := do
  let preset := o.rules.preset
  let stack ← paneText files o.stackFile preset.stackElements
  let witness ← paneText files o.witnessFile
    (if o.stackFile.isSome then "" else preset.witnessScript)
  match o.template with
  | some path => return ⟨stack, witness, some (← template files path)⟩
  | none => return ⟨stack, witness, none⟩

/-- The outcome of a wrong use of the program, or of a request for help. -/
def misuse (program : String) : UsageError → Outcome
  | .helpRequested => ⟨0, usage program ++ "\n", ""⟩
  | e => failed 2 s!"Error: {e.message}\n\n{usage program}"

/-- The whole program, where `opening` says what it does when it is not to check. -/
def run (program : String) (args : List String) (files : String → Option String)
    (opening : RuleSet → Sources → Outcome) : Outcome :=
  match Options.ofArgs args with
  | .error e => misuse program e
  | .ok o =>
    match sources o files with
    | .error outcome => outcome
    | .ok s =>
      if o.check then Report.check o.rules s.stack s.witness s.template else opening o.rules s

end CommandLine

end ScriptBench
