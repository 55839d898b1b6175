import ScriptBench.Proofs.Evaluation.Under
import ScriptBench.Proofs.Machine.Alike
import ScriptBench.Proofs.Opcode.Table

/-! What scripts observe of a template.

Lock time checks and inspections read the version, the lock time, which input is the current
one, how many inputs and outputs there are, the sequences of inputs and the amounts of both.
Nothing else of a template reaches a script: neither block height and time, nor the
transactions spent from and the scripts of inputs and outputs. Programs without the words
that consult a template do not even tell whether there is one. -/
namespace ScriptBench

/-- Templates that agree on everything scripts can read. -/
structure Template.Agree (t t' : Template) : Prop where
  version : t.version = t'.version
  lockTime : t.lockTime = t'.lockTime
  currentInput : t.currentInput = t'.currentInput
  inputs : List.Forall₂ (fun i j => i.sequence = j.sequence ∧ i.amount = j.amount)
    t.inputs t'.inputs
  outputs : List.Forall₂ (fun o p => o.amount = p.amount) t.outputs t'.outputs

namespace Template.Agree

/-- Entries that are related are both there or both missing. -/
@[elab_as_elim]
theorem entry_cases {α β : Type} {R : α → β → Prop} {motive : Option α → Option β → Prop}
    {x : Option α} {y : Option β} (h : Option.Rel R x y) (missing : motive none none)
    (present : ∀ a b, R a b → motive (some a) (some b)) : motive x y := by
  cases h with
  | none => exact missing
  | some hab => exact present _ _ hab

variable {t t' : Template} (h : t.Agree t')
include h

theorem input (index : Nat) :
    Option.Rel (fun i j => i.sequence = j.sequence ∧ i.amount = j.amount)
      t.inputs[index]? t'.inputs[index]? :=
  Stacks.forall₂_getElem? h.inputs index

theorem current? :
    Option.Rel (fun i j => i.sequence = j.sequence ∧ i.amount = j.amount)
      t.current? t'.current? := by
  unfold Template.current?
  rw [h.currentInput]
  exact h.input _

theorem absoluteUnmet? (lock : Nat) :
    LockTime.absoluteUnmet? t lock = LockTime.absoluteUnmet? t' lock := by
  unfold LockTime.absoluteUnmet?
  rw [h.lockTime]
  refine entry_cases h.current? rfl fun i j hij => ?_
  simp only [hij.1]

theorem relativeFault? (lock : Nat) :
    LockTime.relativeFault? t lock = LockTime.relativeFault? t' lock := by
  unfold LockTime.relativeFault?
  rw [h.version]
  refine entry_cases h.current? rfl fun i j hij => ?_
  simp only [hij.1]

theorem checkAbsolute :
    LockTime.checkAbsolute (some t) = LockTime.checkAbsolute (some t') := by
  show (do let lock ← LockTime.operand; _) = (do let lock ← LockTime.operand; _)
  simp only [h.absoluteUnmet?]

theorem checkRelative :
    LockTime.checkRelative (some t) = LockTime.checkRelative (some t') := by
  show (do let lock ← LockTime.operand; _) = (do let lock ← LockTime.operand; _)
  simp only [h.relativeFault?]

theorem inputAmount (index : Nat) :
    t.inputs[index]?.map (·.amount) = t'.inputs[index]?.map (·.amount) :=
  entry_cases (h.input index) rfl fun _ _ hij => congrArg some hij.2

theorem outputAmount (index : Nat) :
    t.outputs[index]?.map (·.amount) = t'.outputs[index]?.map (·.amount) :=
  entry_cases (Stacks.forall₂_getElem? h.outputs index) rfl fun _ _ hop => congrArg some hop

/-- An inspection finds the same in both. -/
theorem inspect (i : Inspection) : i.run (some t) = i.run (some t') := by
  cases i with
  | currentInput => exact congrArg (fun n => Action.pushNumber (UInt32.toNat n)) h.currentInput
  | inputValue =>
    refine bind_congr fun index => ?_
    exact congrArg (Inspection.run.amount index) (h.inputAmount index)
  | outputValue =>
    refine bind_congr fun index => ?_
    exact congrArg (Inspection.run.amount index) (h.outputAmount index)
  | inputSequence =>
    refine bind_congr fun index => ?_
    simp only [Action.required, pure_bind]
    refine entry_cases (h.input index) rfl fun i j hij => ?_
    simp only [hij.1]
  | version => exact congrArg (fun n => Action.pushBytes (littleEndian 4 (UInt32.toNat n))) h.version
  | lockTime =>
    exact congrArg (fun n => Action.pushBytes (littleEndian 4 (UInt32.toNat n))) h.lockTime
  | inputCount => exact congrArg (fun n => Action.pushNumber (Number.count n)) h.inputs.length_eq
  | outputCount => exact congrArg (fun n => Action.pushNumber (Number.count n)) h.outputs.length_eq

end Template.Agree

/-! ### Operations -/

/-- Whether an operation consults the template. -/
def Operation.consults : Operation → Bool
  | checkLockTime | checkSequence | inspect _ => true
  | _ => false

theorem Operation.run_of_not_consults {op : Operation} (h : op.consults = false)
    (t t' : Option Template) : op.run t = op.run t' := by
  cases op with
  | checkLockTime | checkSequence | inspect _ => cases h
  | _ => rfl

/-- No operation tells apart templates that agree. -/
theorem Operation.run_of_agree (op : Operation) {t t' : Template} (h : t.Agree t') :
    op.run (some t) = op.run (some t') := by
  cases op with
  | checkLockTime => exact h.checkAbsolute
  | checkSequence => exact h.checkRelative
  | inspect i => exact h.inspect i
  | _ => rfl

theorem Operation.runInPlace_congr {op : Operation} {t t' : Option Template}
    (h : op.run t = op.run t') : op.runInPlace t = op.runInPlace t' := by
  unfold runInPlace
  rw [h]

/-- The words whose opcodes consult the template. -/
def consultingWords : List String := [
  "OP_CHECKLOCKTIMEVERIFY", "OP_NOP2", "OP_CHECKSEQUENCEVERIFY", "OP_NOP3",
  "OP_INSPECTINPUTVALUE", "OP_INSPECTINPUTSEQUENCE", "OP_PUSHCURRENTINPUTINDEX",
  "OP_INSPECTOUTPUTVALUE", "OP_INSPECTVERSION", "OP_INSPECTLOCKTIME", "OP_INSPECTNUMINPUTS",
  "OP_INSPECTNUMOUTPUTS"]

theorem Opcode.consults_of_word {r : RuleSet} {w : String} {o : Opcode} (h : r.opcode? w = some o)
    (hw : w ∉ consultingWords) : o.operation.consults = false := by
  obtain ⟨hknown, hword⟩ := RuleSet.mem_of_opcode? h
  have htable : ∀ o ∈ opcodes, o.operation.consults = true → ∀ w ∈ o.words, w ∈ consultingWords := by
    decide +kernel
  cases hc : o.operation.consults with
  | false => rfl
  | true => exact absurd (htable o (RuleSet.mem_opcodes hknown) hc w hword) hw

/-! ### Lines -/

theorem Input.ofPush_ne_opcode (inner word : Text) : Input.ofPush inner ≠ .opcode word := by
  unfold ofPush
  repeat' split
  all_goals exact Input.noConfusion

/-- A line that stands for an opcode is the word of the opcode. -/
theorem Input.word_of_call {r : RuleSet} {line : Text} {w : String}
    (h : (ofLine line).call r line = .ok (.word w)) : w.toList = line := by
  obtain ⟨word, hinput⟩ : ∃ word, ofLine line = .opcode word := by
    generalize ofLine line = input at h
    cases input with
    | opcode word => exact ⟨word, rfl⟩
    | pushedOpcode word =>
      simp only [call] at h
      split at h <;> cases h
    | _ => cases h
  have hword : w = String.ofList word := by
    rw [hinput] at h
    cases h
    rfl
  rw [hword, String.toList_ofList]
  unfold ofLine at hinput
  split at hinput
  · exact absurd hinput (ofPush_ne_opcode _ _)
  · split at hinput
    · cases hinput
      rfl
    · cases hinput

namespace Machine
variable {m : Machine} {t : Option Template}

/-- A call whose opcode runs alike under both templates does the same under both. -/
theorem call_under_template {c : Call}
    (h : ∀ w o, c = .word w → m.rules.opcode? w = some o →
      o.operation.run t = o.operation.run m.template) :
    (m.under m.rules t).call c = (m.call c).under m.rules t := by
  cases c with
  | push l => exact call_push_under m m.rules t l
  | word w =>
    cases he : m.error with
    | some e => rw [call_of_error he, call_of_error (m := m.under m.rules t) he]
    | none =>
      rw [call_word he, call_word (m := m.under m.rules t) he]
      simp only [under]
      cases ho : m.rules.opcode? w with
      | none => rfl
      | some o =>
        have hrun := Operation.runInPlace_congr (h w o rfl ho)
        simp only [runOpcode, execute, hrun]
        split
        · simp only [perform]
          split <;> rfl
        · rfl

/-- A line is taken alike when the opcode that it stands for, if any, runs alike. -/
theorem takesAlike_template {line : Text}
    (h : ∀ w o, w.toList = line → m.rules.opcode? w = some o →
      o.operation.run t = o.operation.run m.template) :
    m.TakesAlike False m.rules t line := by
  right
  cases hline : line.isEmpty with
  | true => rw [step_empty _ false hline, step_empty _ false hline]
  | false =>
    have hrules : (m.under m.rules t).rules = m.rules := rfl
    rw [step_program _ hline, step_program _ hline, hrules]
    cases hc : (Input.ofLine line).call m.rules line with
    | error refusal => rfl
    | ok c =>
      have hcall : (m.under m.rules t).call c = (m.call c).under m.rules t :=
        call_under_template fun w o hw ho => h w o (Input.word_of_call (hw ▸ hc)) ho
      simp only [hcall]
      rfl

/-- **Only the fields named in `Template.Agree` can influence a script,** and a program
without the words that consult the template is not influenced by any. -/
theorem evaluate_template (m : Machine) (stackLines witnessLines : List Text) :
    (∀ t t' : Template, t.Agree t' →
      (m.evaluate stackLines witnessLines (some t)).1 =
        (m.evaluate stackLines witnessLines (some t')).1) ∧
    ((∀ w ∈ consultingWords, w.toList ∉ witnessLines) → ∀ t t' : Option Template,
      (m.evaluate stackLines witnessLines t).1 = (m.evaluate stackLines witnessLines t').1) := by
  refine ⟨fun t t' hagree => ?_, fun hwords t t' => ?_⟩
  · have hlines (k : Machine) (hrules : k.rules = m.rules) (htemplate : k.template = some t) :
        ∀ line ∈ witnessLines, k.TakesAlike False m.rules (some t') line := by
      intro line _
      rw [← hrules]
      refine takesAlike_template fun _ o _ _ => ?_
      rw [htemplate]
      exact (o.operation.run_of_agree hagree).symm
    exact ((evaluate_under m m stackLines hlines).resolve_left And.left).symm
  · have hlines (k : Machine) (hrules : k.rules = m.rules) (_ : k.template = t) :
        ∀ line ∈ witnessLines, k.TakesAlike False m.rules t' line := by
      intro line hline
      rw [← hrules]
      refine takesAlike_template fun w o hw ho => ?_
      have hplain : o.operation.consults = false :=
        Opcode.consults_of_word ho fun hmem => hwords w hmem (hw ▸ hline)
      exact Operation.run_of_not_consults hplain _ _
    exact ((evaluate_under m m stackLines hlines).resolve_left And.left).symm

/-- A spending transaction, and the same one in another block and from another place. -/
def spending (txid : String) (vout : UInt32) (height : Option UInt32) : Template :=
  ⟨2, 100, 0, [⟨txid, vout, 0xfffffffe, "", 5000⟩], [⟨txid, 4000⟩], height, none⟩

/-- Checks the lock time and compares the amounts of an input and an output. -/
def lockedAmount : List Text :=
  ["<100>", "OP_NOP2", "OP_PUSHCURRENTINPUTINDEX", "OP_INSPECTINPUTVALUE", "OP_DROP", "OP_0",
    "OP_INSPECTOUTPUTVALUE", "OP_DROP", "OP_GREATERTHAN64"].map String.toList

theorem evaluate_template_lockedAmount :
    (spending "00" 0 none).Agree (spending "ff" 7 (some 800000)) ∧
    spending "00" 0 none ≠ spending "ff" 7 (some 800000) ∧
    ((new ⟨.liquid, .tapscript⟩).evaluate [] lockedAmount (some (spending "00" 0 none))).1.failure =
      none ∧
    ((new ⟨.liquid, .tapscript⟩).evaluate [] lockedAmount (some (spending "00" 0 none))).1 =
      ((new ⟨.liquid, .tapscript⟩).evaluate [] lockedAmount
        (some (spending "ff" 7 (some 800000)))).1 ∧
    (∀ w ∈ consultingWords, w.toList ∉ ["<OP_NOP2>", "OP_HASH160"].map String.toList) ∧
    ((new .standard).evaluate [] (["<OP_NOP2>", "OP_HASH160"].map String.toList) none).1 =
      ((new .standard).evaluate [] (["<OP_NOP2>", "OP_HASH160"].map String.toList)
        (some (spending "00" 0 none))).1 := by
  have hagree : (spending "00" 0 none).Agree (spending "ff" 7 (some 800000)) :=
    ⟨rfl, rfl, rfl, .cons ⟨rfl, rfl⟩ .nil, .cons rfl .nil⟩
  have hwords : ∀ w ∈ consultingWords,
      w.toList ∉ ["<OP_NOP2>", "OP_HASH160"].map String.toList := by decide +kernel
  exact ⟨hagree, by decide +kernel, by decide +kernel,
    (evaluate_template (new ⟨.liquid, .tapscript⟩) [] lockedAmount).1 _ _ hagree,
    hwords, (evaluate_template (new .standard) [] _).2 hwords none _⟩

end Machine

end ScriptBench
