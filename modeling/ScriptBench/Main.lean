import ScriptBench.CommandLine.Report
import ScriptBench.Frame

/-! The program: it reads the files that its arguments name, and prints either the
report that they ask for or the screen that a session opens with. -/
namespace ScriptBench.CommandLine

def programName : String := "scriptbench"

/-- The size of the screen that is printed. -/
def screenWidth : Nat := 80

def screenHeight : Nat := 24

/-- The screen that a session opens with. -/
def openingScreen (r : RuleSet) (s : Sources) : Outcome :=
  let session := (Session.start r s.stack s.witness s.template).layOut screenWidth screenHeight
  match session.frame? screenWidth screenHeight with
  | some frame => ⟨0, Report.unlines (frame.screen.texts.map String.ofList), ""⟩
  | none => failed 101 "Error: the screen is too large"

/-- The files that arguments name. -/
def namedFiles (args : List String) : List String :=
  match Options.ofArgs args with
  | .ok o => o.files
  | .error _ => []

/-- The contents of a file, if it can be read. -/
def readFile? (path : String) : IO (Option String) := do
  try return some (← IO.FS.readFile path)
  catch _ => return none

end ScriptBench.CommandLine

open ScriptBench CommandLine in
def main (args : List String) : IO UInt32 := do
  let files ← (namedFiles args).mapM fun path => return (path, ← readFile? path)
  let contents (path : String) : Option String := (files.lookup path).join
  let outcome := CommandLine.run programName args contents openingScreen
  IO.print outcome.stdout
  IO.eprint outcome.stderr
  return UInt32.ofNat outcome.code
