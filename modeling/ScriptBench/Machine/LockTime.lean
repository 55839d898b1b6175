import ScriptBench.Machine.Action

/-! The two lock time checks. Neither of them moves anything on the stacks. -/
namespace ScriptBench.LockTime

/-- Whether a lock time counts blocks and not seconds. -/
def isHeight (n : Nat) : Bool := n < Template.lockTimeThreshold

/-- The top of the stack as a number of up to five bytes. -/
def operand : Action Int := do Action.readNumber Number.lockTimeLimit (← Action.top)

/-- What an absolute lock asks of the transaction and does not find. -/
def absoluteUnmet? (t : Template) (lock : Nat) : Option Unmet :=
  if isHeight lock != isHeight t.lockTime.toNat then some .lockTimeKind
  else if t.lockTime.toNat < lock then some (.lockTime lock t.lockTime.toNat)
  else match t.current? with
    | some i => if i.sequence = Template.finalSequence then some .finalSequence else none
    | none => some .finalSequence

/-- The transaction's lock time is of the kind asked for and has been reached,
and the current input's sequence leaves lock times in force. -/
def checkAbsolute (template : Option Template) : Action Unit := do
  let t ← Action.required template
  let lock ← operand
  if lock < 0 then Action.refuse (.negativeLockTime lock)
  else match absoluteUnmet? t lock.toNat with
    | some what => throw (.unmet what)
    | none => pure ()

/-- The bits of a relative lock that count: its kind and its length. -/
def relativeMask : Nat := 0x40ffff

/-- Whether the masked bits count blocks and not spans of time. -/
def countsBlocks (masked : Nat) : Bool := masked < 0x400000

/-- Whether a relative lock, or a sequence, is switched off. -/
def switchedOff (n : Nat) : Bool := n.testBit 31

/-- The input's sequence is in force, of the kind asked for, and long enough. -/
def relativeFault? (t : Template) (lock : Nat) : Option Fault :=
  if switchedOff lock then none
  else if t.version < 2 then some (.unmet (.version t.version.toNat))
  else match t.current? with
    | none => some (.operand .noCurrentInput)
    | some i =>
      let wanted := lock &&& relativeMask
      let present := i.sequence.toNat &&& relativeMask
      if switchedOff i.sequence.toNat then some (.unmet .sequenceDisabled)
      else if countsBlocks wanted != countsBlocks present then some (.unmet .relativeKind)
      else if present < wanted then some (.unmet (.relative wanted present))
      else none

def checkRelative (template : Option Template) : Action Unit := do
  let t ← Action.required template
  let lock ← operand
  if lock < 0 then Action.refuse (.negativeSequence lock)
  else match relativeFault? t lock.toNat with
    | some fault => throw fault
    | none => pure ()

end ScriptBench.LockTime
