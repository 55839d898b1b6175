import ScriptBench.Json.Printer
import ScriptBench.Json.Reader
import ScriptBench.Template

/-! Templates written as JSON.

A record is an object of its fields, of which any may be missing and none may
come twice, or an array of its fields in order, of which the last may be missing.
Members with other names are passed over. -/
namespace ScriptBench

namespace Json

/-- The value of the member `name`, when there is one; an error when there are two. -/
def member (name : Text) (members : List (Text × Json)) : Option (Option Json) :=
  match members.filter (·.1 == name) with
  | [] => some none
  | [(_, value)] => some (some value)
  | _ => none

/-- The fields of a record named `names`, in that order, each present or missing. -/
def fields? (names : List Text) : Json → Option (List (Option Json))
  | array items =>
    if items.length ≤ names.length then
      some (items.map some ++ List.replicate (names.length - items.length) none)
    else none
  | object members => do
    let members ← members.mapM fun (key, value) => (JsonPiece.decode? key).map (·, value)
    names.mapM (member · members)
  | _ => none

/-- A field that takes the value `missing` when it is not there. -/
def fieldOr {α : Type} (missing : α) (read : Json → Option α) : Option Json → Option α
  | some j => read j
  | none => some missing

def word32? (j : Json) : Option UInt32 := do
  let n ← j.nat?
  if n < 0x100000000 then some (UInt32.ofNat n) else none

def word64? (j : Json) : Option UInt64 := do
  let n ← j.nat?
  if n < wordCount64 then some (UInt64.ofNat n) else none

def string? (j : Json) : Option String := j.text?.map String.ofList

def list? {α : Type} (read : Json → Option α) : Json → Option (List α)
  | array items => items.mapM read
  | _ => none

/-- A value that may be null. -/
def optional? {α : Type} (read : Json → Option α) : Json → Option (Option α)
  | null => some none
  | j => (read j).map some

/-- An object of named members. -/
def record (members : List (String × Json)) : Json :=
  object (members.map fun (key, value) => (key.toList.map JsonPiece.ofChar, value))

def ofString (s : String) : Json := ofText s.toList

end Json

namespace TemplateInput

def fieldNames : List String := ["previous_txid", "vout", "sequence", "script_pubkey", "amount"]

def ofJson? (j : Json) : Option TemplateInput := do
  let blank := Template.blankInput
  match ← j.fields? (fieldNames.map String.toList) with
  | [txid, vout, sequence, script, amount] =>
    return {
      previousTxid := ← Json.fieldOr blank.previousTxid Json.string? txid
      vout := ← Json.fieldOr blank.vout Json.word32? vout
      sequence := ← Json.fieldOr blank.sequence Json.word32? sequence
      scriptPubkey := ← Json.fieldOr blank.scriptPubkey Json.string? script
      amount := ← Json.fieldOr blank.amount Json.word64? amount }
  | _ => none

def toJson (i : TemplateInput) : Json := Json.record [
  ("previous_txid", Json.ofString i.previousTxid),
  ("vout", Json.ofNat i.vout.toNat),
  ("sequence", Json.ofNat i.sequence.toNat),
  ("script_pubkey", Json.ofString i.scriptPubkey),
  ("amount", Json.ofNat i.amount.toNat)]

end TemplateInput

namespace TemplateOutput

def fieldNames : List String := ["script_pubkey", "amount"]

def ofJson? (j : Json) : Option TemplateOutput := do
  let blank := Template.blankOutput
  match ← j.fields? (fieldNames.map String.toList) with
  | [script, amount] =>
    return {
      scriptPubkey := ← Json.fieldOr blank.scriptPubkey Json.string? script
      amount := ← Json.fieldOr blank.amount Json.word64? amount }
  | _ => none

def toJson (o : TemplateOutput) : Json := Json.record [
  ("script_pubkey", Json.ofString o.scriptPubkey),
  ("amount", Json.ofNat o.amount.toNat)]

end TemplateOutput

namespace Template

def fieldNames : List String :=
  ["version", "locktime", "current_input_index", "inputs", "outputs", "block_height",
    "block_timestamp"]

def ofJson? (j : Json) : Option Template := do
  match ← j.fields? (fieldNames.map String.toList) with
  | [version, lockTime, current, inputs, outputs, height, timestamp] =>
    return {
      version := ← Json.fieldOr blank.version Json.word32? version
      lockTime := ← Json.fieldOr blank.lockTime Json.word32? lockTime
      currentInput := ← Json.fieldOr blank.currentInput Json.word32? current
      inputs := ← Json.fieldOr blank.inputs (Json.list? TemplateInput.ofJson?) inputs
      outputs := ← Json.fieldOr blank.outputs (Json.list? TemplateOutput.ofJson?) outputs
      blockHeight := ← Json.fieldOr none (Json.optional? Json.word32?) height
      blockTimestamp := ← Json.fieldOr none (Json.optional? Json.word32?) timestamp }
  | _ => none

/-- A member that is written only when there is a value for it. -/
def optionalMember (name : String) : Option UInt32 → List (String × Json)
  | some n => [(name, Json.ofNat n.toNat)]
  | none => []

def toJson (t : Template) : Json := Json.record (
  [("version", Json.ofNat t.version.toNat),
   ("locktime", Json.ofNat t.lockTime.toNat),
   ("current_input_index", Json.ofNat t.currentInput.toNat),
   ("inputs", Json.array (t.inputs.map TemplateInput.toJson)),
   ("outputs", Json.array (t.outputs.map TemplateOutput.toJson))] ++
  optionalMember "block_height" t.blockHeight ++
  optionalMember "block_timestamp" t.blockTimestamp)

/-- Reads a template and validates it. -/
def parse (t : Text) : Except Flaw Template :=
  match (Json.read? t).bind ofJson? with
  | none => .error .json
  | some template =>
    match template.validate with
    | .ok () => .ok template
    | .error flaw => .error flaw

/-- The form in which templates are edited. -/
def pretty (t : Template) : Text := t.toJson.pretty

end Template

end ScriptBench
