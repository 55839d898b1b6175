import ScriptBench.Frame.Modal
import ScriptBench.Proofs.Evaluation.Panes
import ScriptBench.Proofs.Machine.History

/-! Where the bytecode of a program is split.

The bytecode of an evaluation is one record, that of its machine, and is cut where the
first pane ended. The cut is right because a record only grows: whatever is asked of a
machine, whether it fails or not, what was recorded before stays in front. Written in
hexadecimal the record is cut between two digits, and never within a byte. -/
namespace ScriptBench

namespace Machine

/-! ### The record grows -/

theorem perform_bytecode (m : Machine) (word : String) (action : Action Unit) :
    (m.perform word action).bytecode = m.bytecode := by
  unfold perform
  split <;> rfl

theorem execute_bytecode (m : Machine) (o : Opcode) : (m.execute o).bytecode = m.bytecode := by
  unfold execute
  split
  · exact perform_bytecode ..
  · rfl

/-- A call adds to the record, or leaves it alone. -/
theorem bytecode_prefix_call (m : Machine) (c : Call) : m.bytecode <+: (m.call c).bytecode := by
  cases he : m.error with
  | some e => exact ⟨[], by rw [call_of_error he, List.append_nil]⟩
  | none =>
    cases c with
    | push l =>
      rw [call_push he]
      cases l.element with
      | error e => exact List.prefix_rfl
      | ok e =>
        simp only [pushElement]
        split
        · exact List.prefix_append ..
        · exact List.prefix_rfl
    | word w =>
      rw [call_word he]
      cases m.rules.opcode? w with
      | none => exact List.prefix_rfl
      | some o =>
        simp only [runOpcode, execute_bytecode]
        exact List.prefix_append ..

theorem bytecode_prefix_run (m : Machine) (calls : List Call) :
    m.bytecode <+: (m.run calls).bytecode := by
  induction calls generalizing m with
  | nil => exact List.prefix_rfl
  | cons c rest ih => exact (bytecode_prefix_call m c).trans (ih _)

theorem bytecode_prefix_runLines (m : Machine) (pushOnly : Bool) (lines : List Text) :
    m.bytecode <+: (m.runLines pushOnly lines).machine.bytecode := by
  obtain ⟨calls, hcalls⟩ := exists_calls_of_runLines m pushOnly lines
  rw [hcalls]
  exact bytecode_prefix_run m calls

end Machine

/-! ### The two parts -/

/-- How an evaluation splits the digits of a whole program; `alone` are those of its first
pane without a second. -/
structure Evaluation.Splits (e : Evaluation) (program alone : Text) : Prop where
  whole : e.unlocking.hexDigits ++ e.witness.hexDigits = program
  /-- The second part is cut off where the first one ends, and never beyond the program. -/
  cut : e.witness.hexDigits = program.drop (min e.unlocking.hexDigits.length program.length)
  unlocking_lower : Bytes.IsLowerHex e.unlocking.hexDigits
  witness_lower : Bytes.IsLowerHex e.witness.hexDigits
  unlocking_alone : e.firstFailure = none → e.unlocking.hexDigits = alone
  witness_nil : e.firstFailure ≠ none → e.witness.hexDigits = []
  decoded : Bytes.ofHex? e.witness.hexDigits = some (CompileModal.decodedWitness e)
  listed : CompileModal.decodedWitness e = e.witness

/-- The digits of two parts are cut apart at the length of the first. -/
theorem Bytes.hexDigits_drop_append (a b : Bytes) :
    (hexDigits (a ++ b)).drop (min a.hexDigits.length (hexDigits (a ++ b)).length) =
      b.hexDigits := by
  have hle : a.hexDigits.length ≤ (hexDigits (a ++ b)).length := by
    simp only [length_hexDigits, List.length_append]
    omega
  rw [Nat.min_eq_left hle, hexDigits_append, List.drop_left]

theorem CompileModal.decodedWitness_eq (e : Evaluation) : decodedWitness e = e.witness := by
  rw [decodedWitness, Bytes.ofHex?_hexDigits, Option.getD_some]

/-- Parts that make up the record of a machine split its digits. -/
theorem Evaluation.Splits.of_append {e : Evaluation} {code alone : Bytes}
    (hwhole : e.unlocking ++ e.witness = code) (halone : e.firstFailure = none → e.unlocking = alone)
    (hnil : e.firstFailure ≠ none → e.witness = []) :
    e.Splits code.hexDigits alone.hexDigits where
  whole := by rw [← hwhole, Bytes.hexDigits_append]
  cut := by rw [← hwhole, Bytes.hexDigits_drop_append]
  unlocking_lower := Bytes.isLowerHex_hexDigits _
  witness_lower := Bytes.isLowerHex_hexDigits _
  unlocking_alone := fun h => congrArg Bytes.hexDigits (halone h)
  witness_nil := fun h => congrArg Bytes.hexDigits (hnil h)
  decoded := by rw [CompileModal.decodedWitness_eq, Bytes.ofHex?_hexDigits]
  listed := CompileModal.decodedWitness_eq e

namespace Machine
variable (m : Machine) (stackLines witnessLines : List Text) (template : Option Template)

/-- The parts of an evaluation's bytecode make up what its machine has recorded. -/
theorem unlocking_append_witness :
    (m.evaluate stackLines witnessLines template).1.unlocking ++
        (m.evaluate stackLines witnessLines template).1.witness =
      (m.evaluate stackLines witnessLines template).2.bytecode := by
  generalize hstart : m.clear.withTemplate template = start
  cases hf : (start.runLines true stackLines).failure with
  | some message =>
    rw [evaluate_of_failed hstart hf]
    exact List.append_nil _
  | none =>
    rw [evaluate_of_passed hstart hf witnessLines rfl rfl]
    obtain ⟨code, hcode⟩ :=
      bytecode_prefix_runLines (start.runLines true stackLines).machine false witnessLines
    simp only [← hcode, List.drop_left]

/-- Without a failure in the first pane, its part is the whole bytecode of the pane alone. -/
theorem unlocking_alone
    (h : (m.evaluate stackLines witnessLines template).1.firstFailure = none) :
    (m.evaluate stackLines witnessLines template).1.unlocking =
      (m.evaluate stackLines [] template).2.bytecode := by
  generalize hstart : m.clear.withTemplate template = start
  have hf := (firstFailure_eq_none_iff hstart witnessLines).mp h
  rw [(begins_evaluate hstart witnessLines).unlocking, evaluate_of_passed hstart hf [] rfl rfl]
  rfl

/-- With a failure in the first pane, the whole bytecode is its part. -/
theorem witness_nil
    (h : (m.evaluate stackLines witnessLines template).1.firstFailure ≠ none) :
    (m.evaluate stackLines witnessLines template).1.witness = [] := by
  generalize hstart : m.clear.withTemplate template = start
  rw [Ne, firstFailure_eq_none_iff hstart] at h
  obtain ⟨message, hf⟩ := Option.ne_none_iff_exists'.mp h
  rw [evaluate_of_failed hstart hf]

/-- **The bytecode is split exactly where the first pane ends**, for every machine and on
every way an evaluation may go: the parts make up what the machine has recorded, each is
written in whole bytes, the first is that of the first pane alone, and nothing is left for
the second when the first pane fails. -/
theorem evaluate_splits :
    (m.evaluate stackLines witnessLines template).1.Splits
      (m.evaluate stackLines witnessLines template).2.bytecode.hexDigits
      (m.evaluate stackLines [] template).2.bytecode.hexDigits :=
  .of_append (unlocking_append_witness m _ _ _) (unlocking_alone m _ _ _) (witness_nil m _ _ _)

end Machine

end ScriptBench
