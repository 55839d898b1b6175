import ScriptBench.Proofs.Evaluation.Under
import ScriptBench.Proofs.Opcode.Table

/-! Richer rule sets are conservative.

Liquid allows what Bitcoin allows, and tapscript knows the words that segwit knows. A richer
rule set adds words and takes disabled opcodes off the list, and leaves every other word as
it was: the same byte, the same operation. So a program without a failure does the same
under every richer rule set. A program that fails may well run there. -/
namespace ScriptBench

/-! ### The order of the rule sets -/

instance : LE Network := ⟨fun a b => a = .bitcoin ∨ b = .liquid⟩

instance : LE ScriptVersion := ⟨fun a b => a = .segwit ∨ b = .tapscript⟩

/-- A rule set is richer when both its network and its script version are. -/
instance : LE RuleSet := ⟨fun r s => r.network ≤ s.network ∧ r.version ≤ s.version⟩

namespace RuleSet
variable {r s : RuleSet}

theorem splices_mono (h : r ≤ s) (hr : r.splices = true) : s.splices = true := by
  obtain ⟨hbitcoin | hliquid, -⟩ := h
  · simp [splices, hbitcoin] at hr
  · simp [splices, hliquid]

theorem isTapscript_mono (h : r ≤ s) (hr : r.isTapscript = true) : s.isTapscript = true := by
  obtain ⟨-, hsegwit | htapscript⟩ := h
  · simp [isTapscript, hsegwit] at hr
  · simp [isTapscript, htapscript]

theorem introspects_mono (h : r ≤ s) (hr : r.introspects = true) : s.introspects = true := by
  unfold introspects at hr ⊢
  rw [Bool.and_eq_true] at hr ⊢
  exact ⟨splices_mono h hr.1, isTapscript_mono h hr.2⟩

end RuleSet

theorem Scope.covers_mono {r s : RuleSet} (h : r ≤ s) {scope : Scope}
    (hr : scope.covers r = true) : scope.covers s = true := by
  cases scope with
  | everywhere => rfl
  | tapscript => exact RuleSet.isTapscript_mono h hr
  | liquidTapscript => exact RuleSet.introspects_mono h hr

/-- What a rule set allows, a richer one allows. -/
theorem Operation.allowed_mono {r s : RuleSet} (h : r ≤ s) {op : Operation}
    (hr : op.allowed r = true) : op.allowed s = true := by
  cases op with
  | retired => cases hr
  | cat | slice | keep _ | invert | bitwise _ => exact RuleSet.splices_mono h hr
  | _ => rfl

/-- A word keeps its opcode in a richer rule set. -/
theorem RuleSet.opcode?_mono {r s : RuleSet} (h : r ≤ s) {w : String} {o : Opcode}
    (ho : r.opcode? w = some o) : s.opcode? w = some o := by
  obtain ⟨hknown, hword⟩ := mem_of_opcode? ho
  obtain ⟨hmem, hcovers⟩ := List.mem_filter.mp hknown
  exact opcode?_of_mem (List.mem_filter.mpr ⟨hmem, Scope.covers_mono h hcovers⟩) hword

/-- A line that is not refused stands for the same call under richer rules. -/
theorem Input.call_mono {r s : RuleSet} (h : r ≤ s) {line : Text} {input : Input} {c : Call}
    (hc : input.call r line = .ok c) : input.call s line = .ok c := by
  cases input with
  | pushedOpcode word =>
    cases ho : r.opcode? (String.ofList word) with
    | none => simp [call, ho] at hc
    | some o =>
      simp only [call, ho] at hc
      simpa only [call, RuleSet.opcode?_mono h ho] using hc
  | _ => exact hc

namespace Machine
variable {m : Machine} {r : RuleSet}

/-! ### Runs -/

/-- A call that leaves no error does the same under richer rules. -/
theorem call_richer (h : m.rules ≤ r) {c : Call} (hcall : (m.call c).error = none) :
    (m.under r m.template).call c = (m.call c).under r m.template := by
  obtain ⟨hm, ⟨l, _, rfl, -⟩ | ⟨w, o, s, rfl, ho, hallowed, hrun, hword⟩⟩ := call_cases hcall
  · exact call_push_under m r m.template l
  · have hsame : o.operation.runInPlace (m.under r m.template).template
        (m.under r m.template).toStacks = .ok () s := hrun
    rw [hword, call_opcode (m := m.under r m.template) hm (RuleSet.opcode?_mono h ho)
      (Operation.allowed_mono h hallowed)]
    simp only [perform, under] at hsame ⊢
    simp only [hsame]

/-- A line that does not fail is taken alike under richer rules. -/
theorem takesAlike_richer (h : m.rules ≤ r) (line : Text) :
    m.TakesAlike True r m.template line := by
  by_cases hpassed : (m.step false line).2 = none
  · right
    cases hline : line.isEmpty with
    | true => rw [step_empty _ false hline, step_empty _ false hline]
    | false =>
      rw [step_program _ hline] at hpassed ⊢
      rw [step_program _ hline]
      cases hc : (Input.ofLine line).call m.rules line with
      | error refusal =>
        rw [hc] at hpassed
        cases hpassed
      | ok c =>
        simp only [hc] at hpassed ⊢
        have hcall := call_richer h (Option.map_eq_none_iff.mp hpassed)
        have hunder : (Input.ofLine line).call (m.under r m.template).rules line = .ok c :=
          Input.call_mono h hc
        simp only [hunder, hcall]
        rfl
  · exact .inl ⟨trivial, hpassed⟩

/-- **Richer rule sets are conservative.** A program that does not fail does not fail under a
richer rule set either, and its evaluation there is the same in every respect. -/
theorem evaluate_richer {m n : Machine} (h : m.rules ≤ n.rules)
    (stackLines witnessLines : List Text) (template : Option Template)
    (hpassed : (m.evaluate stackLines witnessLines template).1.failure = none) :
    (n.evaluate stackLines witnessLines template).1.failure = none ∧
      (n.evaluate stackLines witnessLines template).1 =
        (m.evaluate stackLines witnessLines template).1 := by
  have hlines (k : Machine) (hrules : k.rules = m.rules) (htemplate : k.template = template) :
      ∀ line ∈ witnessLines, k.TakesAlike True n.rules template line := by
    subst htemplate
    exact fun line _ => takesAlike_richer (hrules ▸ h) line
  rcases evaluate_under m n stackLines hlines with ⟨-, hfails⟩ | hsame
  · exact absurd hpassed hfails
  · exact ⟨hsame ▸ hpassed, hsame⟩

/-- A branch that pushes the byte of an opcode that may not be executed everywhere. -/
def pushingBranch : List Text :=
  ["OP_IF", "<OP_CAT>", "OP_ELSE", "OP_CODESEPARATOR", "OP_ENDIF"].map String.toList

theorem evaluate_richer_pushingBranch :
    RuleSet.standard ≤ ⟨.liquid, .tapscript⟩ ∧
    ((new .standard).evaluate [['<', '1', '>']] pushingBranch none).1.failure = none ∧
    ((new .standard).evaluate [['<', '1', '>']] pushingBranch none).1.snapshots.getLast? =
      some (.stack [.raw [0x7e]]) ∧
    ((new ⟨.liquid, .tapscript⟩).evaluate [['<', '1', '>']] pushingBranch none).1.failure = none ∧
    ((new ⟨.liquid, .tapscript⟩).evaluate [['<', '1', '>']] pushingBranch none).1 =
      ((new .standard).evaluate [['<', '1', '>']] pushingBranch none).1 := by
  have hricher : RuleSet.standard ≤ ⟨.liquid, .tapscript⟩ := ⟨.inl rfl, .inl rfl⟩
  have hpassed :
      ((new .standard).evaluate [['<', '1', '>']] pushingBranch none).1.failure = none := by
    decide +kernel
  have hsame := evaluate_richer (m := new .standard) (n := new ⟨.liquid, .tapscript⟩) hricher
    [['<', '1', '>']] pushingBranch none hpassed
  exact ⟨hricher, hpassed, by decide +kernel, hsame⟩

end Machine

end ScriptBench
