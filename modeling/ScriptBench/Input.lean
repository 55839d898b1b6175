import ScriptBench.Decimal.Nearest
import ScriptBench.Machine

/-! What a line asks of the machine.

A line is a push between angle brackets or the word of an opcode. A refused line
leaves the machine as it was; where only pushes are allowed, opcodes are refused
whether they are to be executed or pushed. -/
namespace ScriptBench

/-- The forms of a line. -/
inductive Input where
  | hex (digits : Text)
  | binary (digits : Text)
  | text (t : Text)
  | number (n : Int)
  | pushedOpcode (word : Text)
  | opcode (word : Text)
  | invalid
deriving DecidableEq, Repr

/-- Why a line is refused. -/
inductive Refusal where
  | pushOnly
  | unknownOpcode (word : String)
  | unrecognized (line : String)
deriving DecidableEq, Repr

def Refusal.message : Refusal → String
  | pushOnly => "Unlocking bytecode may contain only push operations."
  | unknownOpcode word => s!"Unknown opcode '{word}'"
  | unrecognized line => s!"Invalid input value: '{line}'"

namespace Input

/-- What stands between two quotes; a lone quote stands for itself. -/
def unquote? (quote : Char) : Text → Option Text
  | [] => none
  | [c] => if c = quote then some [c] else none
  | c :: rest => if c = quote then Text.stripEnd? [quote] rest else none

/-- A number of 64 bits: an integer, or a literal with a point or an exponent that
stands for one. -/
def number? (t : Text) : Option Int :=
  match (Decimal.integer? t).filter Number.inWord64 with
  | some n => some n
  | none => (Decimal.parse? t).bind Decimal.nearestInteger?

/-- The start of every opcode's word. -/
def opcodeLead : Text := ['O', 'P', '_']

def startsWith (lead t : Text) : Bool := (Text.stripStart? lead t).isSome

/-- The form of what stands between the angle brackets. -/
def ofPush (inner : Text) : Input :=
  match Text.stripStart? ['0', 'x'] inner with
  | some digits => hex digits
  | none =>
    match Text.stripStart? ['0', 'b'] inner with
    | some digits => binary digits
    | none =>
      match (unquote? '"' inner).or (unquote? '\'' inner) with
      | some t => text t
      | none =>
        if inner.trim.isEmpty then number 0
        else match number? inner.trim with
          | some n => number n
          | none => if startsWith opcodeLead inner then pushedOpcode inner else invalid

/-- What stands between the angle brackets of a line that is a push. -/
def pushed? (line : Text) : Option Text :=
  (Text.stripStart? ['<'] line).bind (Text.stripEnd? ['>'])

def ofLine (line : Text) : Input :=
  match pushed? line with
  | some inner => ofPush inner
  | none => if startsWith opcodeLead line then opcode line else invalid

/-- Whether a line may stand where only pushes are allowed. -/
def isPush : Input → Bool
  | opcode _ | pushedOpcode _ => false
  | _ => true

/-- The call that a line stands for; pushing an opcode pushes its byte. -/
def call (rules : RuleSet) (line : Text) : Input → Except Refusal Call
  | hex digits => .ok (.push (.hex digits))
  | binary digits => .ok (.push (.binary digits))
  | text t => .ok (.push (.text t))
  | number n => .ok (.push (.number n))
  | pushedOpcode word =>
    match rules.opcode? (String.ofList word) with
    | some o => .ok (.push (.hex (Bytes.hexDigits [o.byte])))
    | none => .error (.unknownOpcode (String.ofList word))
  | opcode word => .ok (.word (String.ofList word))
  | invalid => .error (.unrecognized (String.ofList line))

end Input

/-- Feeds one line to a machine, or refuses it. -/
def Machine.feed (m : Machine) (pushOnly : Bool) (line : Text) : Except Refusal Machine :=
  let input := Input.ofLine line
  if pushOnly && !input.isPush then .error .pushOnly
  else (input.call m.rules line).map m.call

end ScriptBench
