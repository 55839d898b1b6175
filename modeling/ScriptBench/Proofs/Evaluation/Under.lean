import ScriptBench.Proofs.Evaluation.FirstPane
import ScriptBench.Proofs.Machine.History

/-! Evaluations under other rules and templates.

The first pane is data and runs the same under all of them, so only the second pane can tell
two rule sets or two templates apart. `TakesAlike` says of one line that it does not, and
`evaluate_under` that an evaluation does not when none of its lines does. Where `lenient`
holds, nothing is asked of the second evaluation when the first one fails. -/
namespace ScriptBench.Machine
variable {m n : Machine} {r : RuleSet} {t : Option Template} {lenient : Prop}

/-- The machine takes a line of the second pane under `r` and `t` as it does under its own
rules and template; or `lenient` holds, and it fails at it. -/
def TakesAlike (lenient : Prop) (m : Machine) (r : RuleSet) (t : Option Template) (line : Text) :
    Prop :=
  (lenient ∧ (m.step false line).2 ≠ none) ∨
    (m.under r t).step false line = ((m.step false line).1.under r t, (m.step false line).2)

/-- Where any line may stand, a line is fed as the call it stands for. -/
theorem feed_program (m : Machine) (line : Text) :
    m.feed false line = ((Input.ofLine line).call m.rules line).map m.call := rfl

/-- What a line of the second pane does. -/
theorem step_program (m : Machine) {line : Text} (hline : line.isEmpty = false) :
    m.step false line =
      match (Input.ofLine line).call m.rules line with
      | .ok c => (m.call c, (m.call c).error.map (·.message))
      | .error refusal => (m, some refusal.message) := by
  unfold step
  rw [hline, feed_program]
  cases (Input.ofLine line).call m.rules line <;> rfl

theorem step_frame (m : Machine) (pushOnly : Bool) (line : Text) :
    (m.step pushOnly line).1.rules = m.rules ∧ (m.step pushOnly line).1.template = m.template := by
  obtain ⟨calls, hcalls⟩ := exists_calls_of_step m pushOnly line
  rw [hcalls]
  exact ⟨run_rules m calls, run_template m calls⟩

/-- Lines that are taken alike one by one are run alike. -/
theorem runLines_under_of_takesAlike (m : Machine) (lines : List Text)
    (h : ∀ n : Machine, n.rules = m.rules → n.template = m.template →
      ∀ line ∈ lines, n.TakesAlike lenient r t line) :
    (lenient ∧ (m.runLines false lines).failure ≠ none) ∨
      (m.under r t).runLines false lines = (m.runLines false lines).under r t := by
  induction lines generalizing m with
  | nil => exact .inr rfl
  | cons line rest ih =>
    obtain ⟨hrules, htemplate⟩ := step_frame m false line
    have hline := h m rfl rfl line List.mem_cons_self
    unfold TakesAlike at hline
    obtain ⟨n, why, hstep⟩ : ∃ n why, m.step false line = (n, why) := ⟨_, _, rfl⟩
    rw [hstep] at hrules htemplate hline
    have hrest := ih n fun k hr ht l hl =>
      h k (hr.trans hrules) (ht.trans htemplate) l (List.mem_cons_of_mem _ hl)
    simp only [runLines, hstep]
    rcases hline with ⟨hlenient, hfails⟩ | hsame
    · obtain ⟨message, rfl⟩ := Option.ne_none_iff_exists'.mp hfails
      exact .inl ⟨hlenient, Option.some_ne_none message⟩
    · rw [hsame]
      cases why with
      | some message => exact .inr rfl
      | none =>
        rcases hrest with hfails | hrun
        · exact .inl hfails
        · right
          simp only [hrun]
          rfl

/-- **Where no line of the second pane tells them apart, evaluations do not differ.** -/
theorem evaluate_under (m n : Machine) (stackLines : List Text) {witnessLines : List Text}
    {t t' : Option Template}
    (h : ∀ k : Machine, k.rules = m.rules → k.template = t →
      ∀ line ∈ witnessLines, k.TakesAlike lenient n.rules t' line) :
    (lenient ∧ (m.evaluate stackLines witnessLines t).1.failure ≠ none) ∨
      (n.evaluate stackLines witnessLines t').1 = (m.evaluate stackLines witnessLines t).1 := by
  -- Both first panes are the run on a new machine, and differ in what they carry along only.
  have hm := runLines_under (new .standard) m.rules t stackLines
  have hn := runLines_under (new .standard) n.rules t' stackLines
  generalize (new .standard).runLines true stackLines = first at hm hn
  have hmstart := withTemplate_clear m t
  have hnstart := withTemplate_clear n t'
  cases hf : first.failure with
  | some message =>
    right
    have hmf : ((first.under m.rules t).failure) = some message := hf
    have hnf : ((first.under n.rules t').failure) = some message := hf
    rw [← hm] at hmf
    rw [← hn] at hnf
    rw [evaluate_of_failed hmstart hmf, evaluate_of_failed hnstart hnf, hm, hn]
    rfl
  | none =>
    have hmf : ((first.under m.rules t).failure) = none := hf
    have hnf : ((first.under n.rules t').failure) = none := hf
    rw [← hm] at hmf
    rw [← hn] at hnf
    rw [evaluate_of_passed hmstart hmf witnessLines hm rfl,
      evaluate_of_passed hnstart hnf witnessLines hn rfl]
    rcases runLines_under_of_takesAlike (first.under m.rules t).machine witnessLines h with
      ⟨hlenient, hfails⟩ | hsame
    · refine .inl ⟨hlenient, ?_⟩
      rw [Run.failedLine, Ne, Option.map_eq_none_iff]
      exact hfails
    · right
      have hsecond : (first.under n.rules t').machine.runLines false witnessLines =
          ((first.under m.rules t).machine.runLines false witnessLines).under n.rules t' := hsame
      rw [hsecond]
      rfl

end ScriptBench.Machine
