import ScriptBench.Bytecode
import ScriptBench.Machine.Execute

/-! The script machine.

Literals and opcode words are fed to a machine one by one. It records them as
bytecode, also in a branch that is not taken, and applies them to its stacks.
The first error is kept, and from then on every call is ignored until the machine
is cleared. -/
namespace ScriptBench

structure Machine extends Stacks where
  rules : RuleSet
  error : Option ScriptError
  template : Option Template
  bytecode : Bytes
deriving DecidableEq, Repr

/-- Data as it is written in a script. -/
inductive Literal where
  | hex (digits : Text)
  | binary (digits : Text)
  | number (n : Int)
  | text (t : Text)
deriving DecidableEq, Repr

/-- The element that a literal stands for. -/
def Literal.element : Literal → Except ScriptError Element
  | hex digits =>
    match Bytes.ofHex? digits with
    | some b => .ok (.raw b)
    | none => .error (.invalidHex (String.ofList digits))
  | binary digits =>
    match Bytes.ofBinary? digits with
    | some b => .ok (.raw b)
    | none => .error (.invalidBinary (String.ofList digits))
  | number n => .ok (.number n)
  | text t => .ok (.text t)

/-- One thing a script can ask of the machine. -/
inductive Call where
  | push (l : Literal)
  | word (w : String)
deriving DecidableEq, Repr

namespace Machine

def new (rules : RuleSet) : Machine :=
  { main := [], alt := [], conditions := []
    rules, error := none, template := none, bytecode := [] }

/-- Empties the machine: stacks, open blocks, error, template and bytecode. -/
def clear (m : Machine) : Machine :=
  { m with
    main := [], alt := [], conditions := []
    error := none, template := none, bytecode := [] }

def withTemplate (m : Machine) (t : Option Template) : Machine :=
  match t with
  | some t => { m with template := some t }
  | none => m

/-- The main stack, bottom first. -/
def stack (m : Machine) : List Element := m.main.reverse

def openConditionals (m : Machine) : Nat := m.conditions.length

def fail (m : Machine) (e : ScriptError) : Machine := { m with error := some e }

/-- Records the push of an element, and pushes it in a branch that is taken. -/
def pushElement (m : Machine) (e : Element) : Machine :=
  if e.size ≤ Element.maxSize then
    { m with
      bytecode := m.bytecode ++ Bytecode.push e.bytes
      main := if m.executing then e :: m.main else m.main }
  else m.fail (.literalSize e.size Element.maxSize)

/-- The machine after an opcode's action on its stacks. -/
def perform (m : Machine) (word : String) (action : Action Unit) : Machine :=
  match action m.toStacks with
  | .ok _ s => { m with toStacks := s }
  | .error fault s => { m with toStacks := s, error := some (.opcode word fault) }

/-- Executes an opcode that has been recorded. An opcode that the rule set disables
fails even in a branch that is not taken. -/
def execute (m : Machine) (o : Opcode) : Machine :=
  if o.operation.allowed m.rules then m.perform o.word (o.operation.runInPlace m.template)
  else m.fail (.opcode o.word .disabled)

/-- Records an opcode and executes it. -/
def runOpcode (m : Machine) (o : Opcode) : Machine :=
  { m with bytecode := m.bytecode ++ [o.byte] }.execute o

def call (m : Machine) (c : Call) : Machine :=
  match m.error with
  | some _ => m
  | none =>
    match c with
    | .push l =>
      match l.element with
      | .ok e => m.pushElement e
      | .error e => m.fail e
    | .word w =>
      match m.rules.opcode? w with
      | some o => m.runOpcode o
      | none => m.fail (.unknownOpcode w)

/-- The machine after a sequence of calls. -/
def run (m : Machine) (calls : List Call) : Machine := calls.foldl call m

end Machine

end ScriptBench
