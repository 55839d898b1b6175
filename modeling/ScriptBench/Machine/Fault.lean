/-! What can go wrong while a script runs, and how it is reported.

A `Fault` is the cause an opcode finds; a `ScriptError` adds the word that was
being executed, or says what was wrong with a literal. -/
namespace ScriptBench

/-- Why an operand is outside what its opcode accepts. -/
inductive OperandFault where
  | pushDataWord
  | negativeIndex (n : Int)
  | stackIndex (n : Int) (depth : Nat)
  | byteRange (start stop size : Nat)
  | sizesDiffer (first second : Nat)
  | noEntry (index : Nat)
  | noInput (index : Nat)
  | notEightBytes (size : Nat)
  | notFourBytes (size : Nat)
  | negativeLockTime (n : Int)
  | negativeSequence (n : Int)
  | noCurrentInput
  | reserved
deriving DecidableEq, Repr

def OperandFault.message : OperandFault → String
  | pushDataWord => "push data with a <0x...> literal instead"
  | negativeIndex n => s!"negative index {n}"
  | stackIndex n depth => s!"index {n} out of range for stack of {depth}"
  | byteRange start stop size => s!"range {start}..{stop} out of bounds for {size} bytes"
  | sizesDiffer first second => s!"operands differ in size ({first} and {second})"
  | noEntry index => s!"no entry at index {index}"
  | noInput index => s!"no input at index {index}"
  | notEightBytes size => s!"expected an 8-byte value, got {size} bytes"
  | notFourBytes size => s!"expected a 4-byte value, got {size} bytes"
  | negativeLockTime n => s!"negative lock time {n}"
  | negativeSequence n => s!"negative sequence {n}"
  | noCurrentInput => "current input index out of range"
  | reserved => "reserved opcode"

/-- What a lock time or sequence check asks of the transaction and does not find. -/
inductive Unmet where
  | lockTimeKind
  | lockTime (lock transaction : Nat)
  | finalSequence
  | version (v : Nat)
  | sequenceDisabled
  | relativeKind
  | relative (lock sequence : Nat)
deriving DecidableEq, Repr

def Unmet.message : Unmet → String
  | lockTimeKind => "lock time and transaction lock time are of different types"
  | lockTime lock transaction =>
    s!"lock time {lock} not reached (transaction lock time {transaction})"
  | finalSequence => "input sequence is final"
  | version v => s!"transaction version {v} is below 2"
  | sequenceDisabled => "input sequence has the disable flag set"
  | relativeKind => "relative lock and input sequence are of different types"
  | relative lock sequence => s!"relative lock {lock} not reached (input sequence {sequence})"

/-- Why an opcode fails. -/
inductive Fault where
  | underflow
  | disabled
  | unsupported
  | verifyFailed
  | returned
  | unbalanced
  | numberSize (size limit : Nat)
  | elementSize (size limit : Nat)
  | operand (why : OperandFault)
  | noTemplate
  | unmet (what : Unmet)
deriving DecidableEq, Repr

inductive ScriptError where
  | invalidHex (input : String)
  | invalidBinary (input : String)
  | literalSize (size limit : Nat)
  | unknownOpcode (word : String)
  | opcode (word : String) (fault : Fault)
deriving DecidableEq, Repr

def sizeMessage (size limit : Nat) : String :=
  s!"Push Error: element is {size} bytes, limit is {limit}"

/-- How a fault of the opcode `word` is reported. -/
def Fault.message (word : String) : Fault → String
  | underflow => s!"{word} Error: stack does not have enough elements"
  | disabled => s!"{word} is disabled on this network"
  | unsupported => s!"{word} is not supported by the script machine"
  | verifyFailed => s!"{word} Error: verification failed"
  | returned => "OP_RETURN Error: script is unspendable"
  | unbalanced => s!"{word} Error: no matching OP_IF or OP_NOTIF"
  | numberSize size limit => s!"{word} Error: number is {size} bytes, limit is {limit}"
  | elementSize size limit => sizeMessage size limit
  | operand why => s!"{word} Error: {why.message}"
  | noTemplate => s!"{word} Error: a transaction template is required"
  | unmet what => s!"{word} Error: {what.message}"

def ScriptError.message : ScriptError → String
  | invalidHex input => s!"Invalid hex value: '{input}'"
  | invalidBinary input => s!"Invalid binary value: '{input}' (expected groups of 8 bits)"
  | literalSize size limit => sizeMessage size limit
  | unknownOpcode word => s!"Unknown opcode '{word}'"
  | opcode word fault => fault.message word

end ScriptBench
