import ScriptBench.Digest.Ripemd160
import ScriptBench.Digest.Sha256
import ScriptBench.Machine.LockTime

/-! What each operation does to the stacks. -/
namespace ScriptBench

def Hash.digest : Hash → Bytes → Bytes
  | ripemd160, b => Ripemd160.digest b
  | sha256, b => Sha256.digest b
  | hash160, b => Ripemd160.digest (Sha256.digest b)
  | hash256, b => Sha256.digest (Sha256.digest b)

open ScriptBench.Action

/-- Pushes what an inspection reads of the transaction. An amount comes with the
byte that marks it as not blinded. -/
def Inspection.run (template : Option Template) : Inspection → Action Unit
  | currentInput => do pushNumber (← required template).currentInput.toNat
  | inputValue => do
    let index ← popIndex
    let t ← required template
    amount index (t.inputs[index]?.map (·.amount))
  | outputValue => do
    let index ← popIndex
    let t ← required template
    amount index (t.outputs[index]?.map (·.amount))
  | inputSequence => do
    let index ← popIndex
    let t ← required template
    match t.inputs[index]? with
    | some i => pushBytes (littleEndian 4 i.sequence.toNat)
    | none => refuse (.noInput index)
  | version => do pushBytes (littleEndian 4 (← required template).version.toNat)
  | lockTime => do pushBytes (littleEndian 4 (← required template).lockTime.toNat)
  | inputCount => do pushNumber (Number.count (← required template).inputs.length)
  | outputCount => do pushNumber (Number.count (← required template).outputs.length)
where
  amount (index : Nat) : Option UInt64 → Action Unit
    | some a => do
      pushBytes (littleEndian 8 a.toNat)
      pushBytes [0x01]
    | none => refuse (.noEntry index)

namespace Operation

/-- Opens a block; in a branch that is not taken nothing is popped and the block
is skipped whole. -/
def runBranch (negated : Bool) : Action Unit := do
  if ← executing then
    let e ← pop
    openBlock (e.isTrue != negated)
  else openBlock false

def runSlice : Action Unit := do
  let size ← popIndex
  let start ← popIndex
  let e ← pop
  if start + size ≤ e.size then pushBytes ((e.bytes.drop start).take size)
  else refuse (.byteRange start (start + size) e.size)

/-- Keeps the first or the last bytes of an element, at most as many as it has. -/
def runKeep (fromEnd : Bool) : Action Unit := do
  let size ← popIndex
  let e ← pop
  pushBytes (if fromEnd then e.bytes.drop (e.size - size) else e.bytes.take size)

def runBitwise (op : Bitwise) : Action Unit := do
  let b ← pop
  let a ← pop
  if a.size = b.size then pushBytes (List.zipWith op.apply a.bytes b.bytes)
  else refuse (.sizesDiffer a.size b.size)

/-- The remainder, the quotient and one; or zero alone when there is no quotient. -/
def runDivide : Action Unit := do
  let b ← popWord
  let a ← popWord
  if b = 0 ∨ ¬ Number.inWord64 (a / b) then pushBool false
  else
    pushBytes (encodeWord64 (a % b))
    pushBytes (encodeWord64 (a / b))
    pushBool true

/-- The effect of an operation. -/
def run (template : Option Template) : Operation → Action Unit
  | constant n => pushNumber n
  | pushData => refuse .pushDataWord
  | skip => pure ()
  | branch negated => runBranch negated
  | otherwise => turnBlock
  | endBranch => closeBlock
  | verify => do Action.verify (← pop).isTrue
  | abandon => throw .returned
  | toAlt => do Action.toAlt (← pop)
  | fromAlt => do push (← Action.fromAlt)
  | move m => rearrange m
  | dupIfTrue => do
    let e ← top
    if e.isTrue then push e
  | depth => do pushNumber (Number.count (← Action.depth))
  | pick remove => do push (← Action.pick remove (← popNumber))
  | cat => do
    let b ← pop
    let a ← pop
    pushJoined (a.bytes ++ b.bytes)
  | slice => runSlice
  | keep fromEnd => runKeep fromEnd
  | size => do pushNumber (Number.count (← top).size)
  | invert => do pushBytes ((← pop).bytes.map (~~~ ·))
  | bitwise op => runBitwise op
  | equal => do
    let b ← pop
    let a ← pop
    pushBool (a.bytes == b.bytes)
  | equalVerify => do
    let b ← pop
    let a ← pop
    Action.verify (a.bytes == b.bytes)
  | unary op => do pushNumber (op.apply (← popNumber))
  | binary op => do
    let b ← popNumber
    let a ← popNumber
    pushNumber (op.apply a b)
  | numEqualVerify => do
    let b ← popNumber
    let a ← popNumber
    Action.verify (a == b)
  | within => do
    let max ← popNumber
    let min ← popNumber
    let x ← popNumber
    pushBool (min ≤ x && x < max)
  | hash h => do pushBytes (h.digest (← pop).bytes)
  | checkLockTime => LockTime.checkAbsolute template
  | checkSequence => LockTime.checkRelative template
  | inspect i => i.run template
  | wordArith op => do
    let b ← popWord
    let a ← popWord
    pushChecked (op.apply a b)
  | wordDivide => runDivide
  | wordNegate => do pushChecked (-(← popWord))
  | wordOrder op => do
    let b ← popWord
    let a ← popWord
    pushBool (op.holds a b)
  | toWord => do
    let n ← readNumber Number.wordLimit (← pop)
    pushBytes (encodeWord64 n)
  | fromWord => do pushNumber (← popWord)
  | widen => do
    let e ← pop
    match decodeWord32? e.bytes with
    | some n => pushBytes (encodeWord64 n)
    | none => refuse (.notFourBytes e.size)
  | reserved => refuse .reserved
  | retired => throw .disabled
  | unsupported => throw .unsupported

/-- Runs an operation where it stands: not at all in a branch that is not taken,
unless it belongs to the conditional structure. -/
def runInPlace (template : Option Template) (op : Operation) : Action Unit := do
  if op.isConditional || (← executing) then op.run template

end Operation

end ScriptBench
