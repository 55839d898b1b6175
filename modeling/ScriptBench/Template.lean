import ScriptBench.Bytes.Hex

/-! Templates of the spending transaction.

A template holds what lock time checks and introspection may ask of the
transaction that spends the script. Any values can be written down; `validate`
says which templates can be put to use. -/
namespace ScriptBench

structure TemplateInput where
  previousTxid : String
  vout : UInt32
  sequence : UInt32
  scriptPubkey : String
  amount : UInt64
deriving DecidableEq, Repr

structure TemplateOutput where
  scriptPubkey : String
  amount : UInt64
deriving DecidableEq, Repr

structure Template where
  version : UInt32
  lockTime : UInt32
  currentInput : UInt32
  inputs : List TemplateInput
  outputs : List TemplateOutput
  blockHeight : Option UInt32
  blockTimestamp : Option UInt32
deriving DecidableEq, Repr

namespace Template

/-- The sequence that switches lock time checks off for an input. -/
def finalSequence : UInt32 := 0xffffffff

/-- Lock times below this are block heights, all others are times. -/
def lockTimeThreshold : Nat := 500000000

/-- An input before anything is said about it. -/
def blankInput : TemplateInput :=
  ⟨String.ofList (List.replicate 64 '0'), 0, finalSequence, "", 0⟩

def blankOutput : TemplateOutput := ⟨"", 0⟩

/-- A template before anything is said about it. -/
def blank : Template := ⟨2, 0, 0, [blankInput], [blankOutput], none, none⟩

/-- The input whose script is being evaluated. -/
def current? (t : Template) : Option TemplateInput := t.inputs[t.currentInput.toNat]?

/-- Why a template cannot be put to use, or cannot be read at all. -/
inductive Flaw where
  | json
  | invalidHex (field value : String)
  | invalidTxid (index : Nat)
  | currentInputMissing (index inputs : Nat)
deriving DecidableEq, Repr

/-- The wording of a flaw; of an unreadable text only that it is one. -/
def Flaw.message : Flaw → String
  | json => "Invalid template JSON"
  | invalidHex field value => s!"Field '{field}' is not valid hex: '{value}'"
  | invalidTxid index => s!"Input {index} previous_txid must be 32 bytes of hex"
  | currentInputMissing index inputs =>
    s!"current_input_index {index} out of range for {inputs} " ++
      (if inputs = 1 then "input" else "inputs")

def checkHex (field value : String) : Except Flaw Unit :=
  if (Bytes.ofHex? value.toList).isSome then .ok () else .error (.invalidHex field value)

def checkTxid (index : Nat) (txid : String) : Except Flaw Unit :=
  if (Bytes.ofHex? txid.toList).any (·.length == 32) then .ok () else .error (.invalidTxid index)

/-- Checks the inputs from number `index` on. -/
def checkInputs (index : Nat) : List TemplateInput → Except Flaw Unit
  | [] => .ok ()
  | i :: rest => do
    checkTxid index i.previousTxid
    checkHex s!"inputs[{index}].script_pubkey" i.scriptPubkey
    checkInputs (index + 1) rest

/-- Checks the outputs from number `index` on. -/
def checkOutputs (index : Nat) : List TemplateOutput → Except Flaw Unit
  | [] => .ok ()
  | o :: rest => do
    checkHex s!"outputs[{index}].script_pubkey" o.scriptPubkey
    checkOutputs (index + 1) rest

/-- Transaction ids are 32 bytes, scripts are hexadecimal, and the current input
exists; the first fault in that order is the one reported. -/
def validate (t : Template) : Except Flaw Unit := do
  checkInputs 0 t.inputs
  checkOutputs 0 t.outputs
  if t.currentInput.toNat < t.inputs.length then .ok ()
  else .error (.currentInputMissing t.currentInput.toNat t.inputs.length)

end Template

end ScriptBench
