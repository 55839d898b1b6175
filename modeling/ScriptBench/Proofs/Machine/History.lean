import ScriptBench.Evaluation
import ScriptBench.Proofs.Machine.Run

/-! A machine forgets what it was used for.

Between two evaluations anything may have been asked of a machine: calls that failed
or left blocks open, another transaction, whole evaluations. All of this is a sequence
of uses, and none of them touches the rule set; the reset at the start of an evaluation
takes back everything else. So an evaluation finds a new machine, whatever happened
before it. -/
namespace ScriptBench

/-- One use of a machine. -/
inductive Use where
  | call (c : Call)
  | clear
  | supply (t : Template)
deriving DecidableEq, Repr

namespace Machine
variable {m : Machine}

def use (m : Machine) : Use → Machine
  | .call c => m.call c
  | .clear => m.clear
  | .supply t => m.withTemplate (some t)

/-- The machine after a sequence of uses. -/
def uses (m : Machine) (history : List Use) : Machine := history.foldl use m

/-! ### What the reset leaves -/

theorem clear_eq_new (m : Machine) : m.clear = new m.rules := rfl

@[simp] theorem withTemplate_rules (m : Machine) (t : Option Template) :
    (m.withTemplate t).rules = m.rules := by
  cases t <;> rfl

/-- Everything but the rule set is reset before an evaluation. -/
theorem evaluate_eq_new (m : Machine) (stackLines witnessLines : List Text)
    (template : Option Template) :
    m.evaluate stackLines witnessLines template =
      (new m.rules).evaluate stackLines witnessLines template := by
  unfold evaluate
  rw [clear_eq_new m, clear_eq_new (new m.rules)]
  rfl

@[simp] theorem use_rules (m : Machine) (u : Use) : (m.use u).rules = m.rules := by
  cases u with
  | call c => exact call_rules m c
  | clear => rfl
  | supply t => rfl

@[simp] theorem uses_rules (m : Machine) (history : List Use) :
    (m.uses history).rules = m.rules := by
  induction history generalizing m with
  | nil => rfl
  | cons u rest ih => exact (ih (m.use u)).trans (use_rules m u)

/-! ### Evaluations as uses -/

/-- Feeding a line makes the call that it stands for. -/
theorem exists_call_of_feed {pushOnly : Bool} {line : Text} {n : Machine}
    (h : m.feed pushOnly line = .ok n) :
    ∃ c, (Input.ofLine line).call m.rules line = .ok c ∧ n = m.call c := by
  unfold feed at h
  dsimp only at h
  split at h
  · cases h
  · cases hc : (Input.ofLine line).call m.rules line with
    | error refusal =>
      rw [hc] at h
      cases h
    | ok c =>
      rw [hc] at h
      cases h
      exact ⟨c, rfl, rfl⟩

theorem exists_calls_of_step (m : Machine) (pushOnly : Bool) (line : Text) :
    ∃ calls, (m.step pushOnly line).1 = m.run calls := by
  unfold step
  split
  · exact ⟨[], rfl⟩
  · split
    · exact ⟨[], rfl⟩
    · rename_i n hfeed
      obtain ⟨c, -, rfl⟩ := exists_call_of_feed hfeed
      exact ⟨[c], rfl⟩

/-- Running lines makes a sequence of calls. -/
theorem exists_calls_of_runLines (m : Machine) (pushOnly : Bool) (lines : List Text) :
    ∃ calls, (m.runLines pushOnly lines).machine = m.run calls := by
  induction lines generalizing m with
  | nil => exact ⟨[], rfl⟩
  | cons line rest ih =>
    obtain ⟨calls, hstep⟩ := exists_calls_of_step m pushOnly line
    unfold runLines
    split
    · rename_i n message heq
      rw [heq] at hstep
      exact ⟨calls, hstep⟩
    · rename_i n heq
      rw [heq] at hstep
      obtain ⟨more, hrest⟩ := ih n
      refine ⟨calls ++ more, ?_⟩
      rw [run_append, ← hstep]
      exact hrest

/-- An evaluation makes calls on the machine it has reset. -/
theorem exists_calls_of_evaluate (m : Machine) (stackLines witnessLines : List Text)
    (template : Option Template) :
    ∃ calls, (m.evaluate stackLines witnessLines template).2 =
      (m.clear.withTemplate template).run calls := by
  unfold evaluate
  generalize m.clear.withTemplate template = start
  obtain ⟨first, hfirst⟩ := exists_calls_of_runLines start true stackLines
  dsimp only
  split
  · exact ⟨first, hfirst⟩
  · obtain ⟨second, hsecond⟩ :=
      exists_calls_of_runLines (start.runLines true stackLines).machine false witnessLines
    refine ⟨first ++ second, ?_⟩
    rw [run_append, ← hfirst]
    exact hsecond

@[simp] theorem evaluate_rules (m : Machine) (stackLines witnessLines : List Text)
    (template : Option Template) :
    (m.evaluate stackLines witnessLines template).2.rules = m.rules := by
  obtain ⟨calls, hcalls⟩ := exists_calls_of_evaluate m stackLines witnessLines template
  rw [hcalls, run_rules, withTemplate_rules]
  rfl

/-- **The history of a machine is irrelevant, and an error freezes it.** Whatever uses were
made of a machine, an evaluation gives what it gives on a new machine of the rule set, and
leaves the same machine behind; and calls on a machine with an error change nothing of it. -/
theorem evaluate_uses (r : RuleSet) (history : List Use) (stackLines witnessLines : List Text)
    (template : Option Template) :
    ((new r).uses history).evaluate stackLines witnessLines template =
      (new r).evaluate stackLines witnessLines template ∧
    ∀ (m : Machine) (e : ScriptError), m.error = some e → ∀ calls : List Call, m.run calls = m := by
  refine ⟨?_, fun m e he calls => run_of_error he calls⟩
  rw [evaluate_eq_new, uses_rules]
  rfl

/-- A history that leaves a transaction, an element on the second stack, an open block and
an error. -/
def troubledHistory : List Use :=
  [.supply Template.blank, .call (.push (.number 7)), .call (.word "OP_TOALTSTACK"),
    .call (.push (.number 1)), .call (.word "OP_IF"), .call (.word "OP_ADD")]

theorem evaluate_uses_troubled :
    ((new .standard).uses troubledHistory).error = some (.opcode "OP_ADD" .underflow) ∧
    ((new .standard).uses troubledHistory).alt = [.number 7] ∧
    ((new .standard).uses troubledHistory).conditions = [true] ∧
    ((new .standard).uses troubledHistory).evaluate [['<', '2', '>']] [['O', 'P', '_', 'D', 'U', 'P']]
        none =
      (new .standard).evaluate [['<', '2', '>']] [['O', 'P', '_', 'D', 'U', 'P']] none ∧
    ((new .standard).uses troubledHistory).run [.push (.number 3), .word "OP_ENDIF"] =
      (new .standard).uses troubledHistory := by
  have herror : ((new .standard).uses troubledHistory).error = some (.opcode "OP_ADD" .underflow) := by
    decide +kernel
  obtain ⟨hevaluate, hfrozen⟩ := evaluate_uses .standard troubledHistory [['<', '2', '>']]
    [['O', 'P', '_', 'D', 'U', 'P']] none
  exact ⟨herror, by decide +kernel, by decide +kernel, hevaluate, hfrozen _ _ herror _⟩

end Machine

end ScriptBench
