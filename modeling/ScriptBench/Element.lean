import ScriptBench.Bytes.Hex
import ScriptBench.Number
import ScriptBench.Text

/-! Stack elements: byte strings that remember how they are shown.

A number is shown in decimal, a text as it is, and anything else in hexadecimal.
The bytes of a number or a text are computed from it, so the two never disagree. -/
namespace ScriptBench

inductive Element where
  | raw (bytes : Bytes)
  | number (n : Int)
  | text (t : Text)
deriving DecidableEq, Repr

namespace Element

/-- The longest element a script may push, in bytes. -/
def maxSize : Nat := 520

/-- What the machine computes with. -/
def bytes : Element → Bytes
  | raw b => b
  | number n => Number.encode n
  | text t => Text.utf8 t

def size (e : Element) : Nat := e.bytes.length

def isTrue (e : Element) : Bool := Number.isTrue e.bytes

/-- One for true, and the empty element zero for false. -/
def ofBool (b : Bool) : Element := number (if b then 1 else 0)

def number? : Element → Option Int
  | number n => some n
  | _ => none

def text? : Element → Option Text
  | text t => some t
  | _ => none

/-- The form shown to a reader. -/
def display : Element → String
  | raw b => "0x" ++ b.hex
  | number n => toString n
  | text t => String.ofList t

end Element

end ScriptBench
