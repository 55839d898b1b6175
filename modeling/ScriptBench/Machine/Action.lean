import ScriptBench.Element
import ScriptBench.Machine.Fault
import ScriptBench.Opcode.Operation
import ScriptBench.Template

/-! Actions on the stacks: what every opcode is made of.

An action may fail, and then keeps the stacks as it left them: operands popped
before a failure stay popped. Everything an opcode reads or writes goes through
the actions of this module. -/
namespace ScriptBench

/-- What opcodes act on; the tops of the stacks and the innermost condition come first. -/
structure Stacks where
  main : List Element
  alt : List Element
  conditions : List Bool
deriving DecidableEq, Repr

/-- Whether every enclosing branch is taken. -/
def Stacks.executing (s : Stacks) : Bool := s.conditions.all id

abbrev Action := EStateM Fault Stacks

namespace Action

def push (e : Element) : Action Unit := fun s => .ok () { s with main := e :: s.main }

def pushNumber (n : Int) : Action Unit := push (.number n)

def pushBool (b : Bool) : Action Unit := push (.ofBool b)

def pushBytes (b : Bytes) : Action Unit := push (.raw b)

def pop : Action Element := fun s =>
  match s.main with
  | [] => .error .underflow s
  | e :: rest => .ok e { s with main := rest }

/-- The top element, left in place. -/
def top : Action Element := fun s =>
  match s.main with
  | [] => .error .underflow s
  | e :: _ => .ok e s

def depth : Action Nat := fun s => .ok s.main.length s

def refuse {α : Type} (why : OperandFault) : Action α := throw (.operand why)

/-- Rearranges the main stack, or leaves it alone when it is too short. -/
def rearrange (m : Move) : Action Unit := fun s =>
  match m.rearranged? s.main with
  | none => .error .underflow s
  | some main => .ok () { s with main }

/-- The element `n` places below the top, which stays or is taken out. -/
def pick (remove : Bool) (n : Int) : Action Element := fun s =>
  let out : OperandFault := .stackIndex n s.main.length
  if n < 0 then .error (.operand out) s
  else match s.main[n.toNat]? with
    | none => .error (.operand out) s
    | some e => .ok e (if remove then { s with main := s.main.eraseIdx n.toNat } else s)

def toAlt (e : Element) : Action Unit := fun s => .ok () { s with alt := e :: s.alt }

def fromAlt : Action Element := fun s =>
  match s.alt with
  | [] => .error .underflow s
  | e :: rest => .ok e { s with alt := rest }

def executing : Action Bool := fun s => .ok s.executing s

/-- Opens a block whose branch is taken when `c` holds. -/
def openBlock (c : Bool) : Action Unit := fun s =>
  .ok () { s with conditions := c :: s.conditions }

/-- Turns to the other branch of the innermost block. -/
def turnBlock : Action Unit := fun s =>
  match s.conditions with
  | [] => .error .unbalanced s
  | c :: rest => .ok () { s with conditions := (!c) :: rest }

def closeBlock : Action Unit := fun s =>
  match s.conditions with
  | [] => .error .unbalanced s
  | _ :: rest => .ok () { s with conditions := rest }

/-- The script number in an element of at most `limit` bytes. -/
def readNumber (limit : Nat) (e : Element) : Action Int :=
  match Number.decode? limit e.bytes with
  | some n => pure n
  | none => throw (.numberSize e.size limit)

def popNumber : Action Int := do readNumber Number.operandLimit (← pop)

/-- Pops a number that is not negative. -/
def popIndex : Action Nat := do
  let n ← popNumber
  if n < 0 then refuse (.negativeIndex n) else pure n.toNat

def popWord : Action Int := do
  let e ← pop
  match decodeWord64? e.bytes with
  | some n => pure n
  | none => refuse (.notEightBytes e.size)

/-- A word followed by one, or zero alone when `n` does not fit a word. -/
def pushChecked (n : Int) : Action Unit := do
  if Number.inWord64 n then
    pushBytes (encodeWord64 n)
    pushBool true
  else pushBool false

def verify (b : Bool) : Action Unit := if b then pure () else throw .verifyFailed

/-- Pushes bytes made by an opcode, unless there are too many. -/
def pushJoined (b : Bytes) : Action Unit :=
  if b.length ≤ Element.maxSize then pushBytes b
  else throw (.elementSize b.length Element.maxSize)

def required (template : Option Template) : Action Template :=
  match template with
  | some t => pure t
  | none => throw .noTemplate

end Action

end ScriptBench
