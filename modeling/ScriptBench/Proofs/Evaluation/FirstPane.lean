import ScriptBench.Proofs.Evaluation.Panes
import ScriptBench.Proofs.Machine.Pushes

/-! The first pane is pure data.

A line of the first pane either stands for a literal or is refused, and which of the two
can be told from the line alone: no rule set is asked, not even for the word of an opcode
between angle brackets. So the run of the first pane is the same under all rule sets and
templates, which it carries along unread (`runLines_under`). A run without a failure has
pushed one element for each line that is not empty, and has done nothing else. -/
namespace ScriptBench

/-! ### A line as data -/

/-- The literal that a line of the first pane stands for, or why it is refused there. -/
def Input.datum (line : Text) : Input → Except Refusal Literal
  | hex digits => .ok (.hex digits)
  | binary digits => .ok (.binary digits)
  | text t => .ok (.text t)
  | number n => .ok (.number n)
  | pushedOpcode _ | opcode _ => .error .pushOnly
  | invalid => .error (.unrecognized (String.ofList line))

/-- A line of the first pane that gives an element. -/
def Input.Gives (line : Text) (e : Element) : Prop :=
  ∃ l, (ofLine line).datum line = .ok l ∧ l.Pushes e

namespace Machine
variable {m : Machine}

/-- Where only pushes are allowed, a line is fed as the literal it stands for. -/
theorem feed_pushOnly (m : Machine) (line : Text) :
    m.feed true line = ((Input.ofLine line).datum line).map fun l => m.call (.push l) := by
  unfold feed
  cases Input.ofLine line <;> rfl

/-- What a line of the first pane does. -/
theorem step_pushOnly (m : Machine) {line : Text} (hline : line.isEmpty = false) :
    m.step true line =
      match (Input.ofLine line).datum line with
      | .ok l => (m.call (.push l), (m.call (.push l)).error.map (·.message))
      | .error refusal => (m, some refusal.message) := by
  unfold step
  rw [hline, feed_pushOnly]
  cases (Input.ofLine line).datum line <;> rfl

theorem step_empty (m : Machine) (pushOnly : Bool) {line : Text} (hline : line.isEmpty = true) :
    m.step pushOnly line = (m, none) := by
  unfold step
  rw [hline]
  rfl

/-! ### Under another rule set -/

/-- The machine under another rule set and template. -/
def under (m : Machine) (r : RuleSet) (t : Option Template) : Machine :=
  { m with rules := r, template := t }

theorem withTemplate_clear (m : Machine) (t : Option Template) :
    m.clear.withTemplate t = (new .standard).under m.rules t := by
  cases t <;> rfl

/-- A literal is pushed without a look at the rules. -/
theorem call_push_under (m : Machine) (r : RuleSet) (t : Option Template) (l : Literal) :
    (m.under r t).call (.push l) = (m.call (.push l)).under r t := by
  cases he : m.error with
  | some e => rw [call_of_error he, call_of_error (m := m.under r t) he]
  | none =>
    rw [call_push he, call_push (m := m.under r t) he]
    cases l.element with
    | error e => rfl
    | ok e =>
      simp only [pushElement]
      split <;> rfl

theorem step_under (m : Machine) (r : RuleSet) (t : Option Template) (line : Text) :
    (m.under r t).step true line = ((m.step true line).1.under r t, (m.step true line).2) := by
  cases hline : line.isEmpty with
  | true => rw [step_empty _ true hline, step_empty _ true hline]
  | false =>
    rw [step_pushOnly _ hline, step_pushOnly _ hline]
    cases (Input.ofLine line).datum line with
    | error refusal => rfl
    | ok l =>
      simp only [call_push_under]
      rfl

end Machine

/-- The run with its machine under another rule set and template. -/
def Run.under (run : Run) (r : RuleSet) (t : Option Template) : Run :=
  { run with machine := run.machine.under r t }

namespace Machine
variable {m : Machine}

/-- The lines of the first pane run the same under all rule sets and templates. -/
theorem runLines_under (m : Machine) (r : RuleSet) (t : Option Template) (lines : List Text) :
    (m.under r t).runLines true lines = (m.runLines true lines).under r t := by
  induction lines generalizing m with
  | nil => rfl
  | cons line rest ih =>
    obtain ⟨n, why, hstep⟩ : ∃ n why, m.step true line = (n, why) := ⟨_, _, rfl⟩
    simp only [runLines, step_under, hstep]
    cases why with
    | some message => rfl
    | none =>
      simp only [ih n]
      rfl

/-! ### A run without a failure -/

/-- A line that does not fail is empty, or pushes the element it gives. -/
theorem step_pushOnly_cases (hm : m.error = none) (hrun : m.executing = true) {line : Text}
    (h : (m.step true line).2 = none) :
    (line.isEmpty = true ∧ (m.step true line).1 = m) ∨
      ∃ e, line.isEmpty = false ∧ Input.Gives line e ∧ (m.step true line).1 = m.pushed [e] := by
  by_cases hline : line.isEmpty = true
  · left
    rw [step_empty m true hline]
    exact ⟨hline, rfl⟩
  · right
    rw [Bool.not_eq_true] at hline
    rw [step_pushOnly m hline] at h ⊢
    cases hdatum : (Input.ofLine line).datum line with
    | error refusal =>
      rw [hdatum] at h
      cases h
    | ok l =>
      simp only [hdatum] at h ⊢
      obtain ⟨e, hl⟩ := pushes_of_call (Option.map_eq_none_iff.mp h)
      exact ⟨e, hline, ⟨l, hdatum, hl⟩, call_pushes hm hrun hl⟩

/-- A run of the first pane without a failure pushes what its lines give, in their order. -/
theorem exists_gives_of_runLines (hm : m.error = none) (hrun : m.executing = true)
    {lines : List Text} (h : (m.runLines true lines).failure = none) :
    ∃ elements, List.Forall₂ Input.Gives (lines.filter (!·.isEmpty)) elements ∧
      (m.runLines true lines).machine = m.pushed elements := by
  induction lines generalizing m with
  | nil => exact ⟨[], .nil, (pushed_nil m).symm⟩
  | cons line rest ih =>
    obtain ⟨n, why, hstep⟩ : ∃ n why, m.step true line = (n, why) := ⟨_, _, rfl⟩
    simp only [runLines, hstep] at h ⊢
    cases why with
    | some message => cases h
    | none =>
      -- The rest runs on the machine begun with, or on that with one element pushed.
      rcases step_pushOnly_cases hm hrun (congrArg Prod.snd hstep) with
        ⟨hempty, hsame⟩ | ⟨e, hline, hgives, hpushed⟩
      · obtain rfl : n = m := (congrArg Prod.fst hstep).symm.trans hsame
        obtain ⟨elements, hrest, hmachine⟩ := ih hm hrun h
        refine ⟨elements, ?_, hmachine⟩
        rw [List.filter_cons_of_neg (by simp [hempty])]
        exact hrest
      · obtain rfl : n = m.pushed [e] := (congrArg Prod.fst hstep).symm.trans hpushed
        obtain ⟨elements, hrest, hmachine⟩ := ih (m := m.pushed [e]) hm hrun h
        refine ⟨e :: elements, ?_, ?_⟩
        · rw [List.filter_cons_of_pos (by simp [hline])]
          exact .cons hgives hrest
        · rw [pushed_cons m e elements]
          exact hmachine

end Machine

/-! ### Evaluations -/

/-- Evaluations that say the same of their first panes. -/
structure Evaluation.SameFirstPane (e e' : Evaluation) : Prop where
  failure : e.firstFailure = e'.firstFailure
  snapshots : e.stackPane = e'.stackPane
  stack : e.firstStack = e'.firstStack
  unlocking : e.unlocking.hexDigits = e'.unlocking.hexDigits

/-- What a first pane of data leaves: the elements of its lines that are not empty and their
pushes, and nothing else on `next`, the machine that the second pane runs on. -/
structure Evaluation.OnlyPushes (e : Evaluation) (lines : List Text) (next : Machine) : Prop where
  elements : List.Forall₂ Input.Gives (lines.filter (!·.isEmpty)) e.firstStack
  unlocking :
    e.unlocking.hexDigits = Bytes.hexDigits (e.firstStack.flatMap fun x => Bytecode.push x.bytes)
  main : next.stack = e.firstStack
  alt : next.alt = []
  conditions : next.conditions = []

namespace Machine

/-- What an evaluation says of its first pane is what the run on a new machine says of it. -/
theorem begins_evaluate_new (m : Machine) (stackLines witnessLines : List Text)
    (template : Option Template) :
    (m.evaluate stackLines witnessLines template).1.Begins
      (((new .standard).runLines true stackLines).under m.rules template) := by
  rw [← runLines_under]
  exact begins_evaluate (withTemplate_clear m template) witnessLines

theorem sameFirstPane (m n : Machine) (stackLines witnessLines witnessLines' : List Text)
    (template template' : Option Template) :
    (m.evaluate stackLines witnessLines template).1.SameFirstPane
      (n.evaluate stackLines witnessLines' template').1 := by
  have hm := begins_evaluate_new m stackLines witnessLines template
  have hn := begins_evaluate_new n stackLines witnessLines' template'
  exact
    { failure := hm.failure.trans hn.failure.symm
      snapshots := hm.snapshots.trans hn.snapshots.symm
      stack := hm.stack.trans hn.stack.symm
      unlocking := congrArg Bytes.hexDigits (hm.unlocking.trans hn.unlocking.symm) }

theorem onlyPushes {m : Machine} {stackLines witnessLines : List Text} {template : Option Template}
    (h : (m.evaluate stackLines witnessLines template).1.firstFailure = none) :
    (m.evaluate stackLines witnessLines template).1.OnlyPushes stackLines
      ((m.clear.withTemplate template).runLines true stackLines).machine := by
  generalize hstart : m.clear.withTemplate template = start
  have hf := (firstFailure_eq_none_iff hstart witnessLines).mp h
  have hbegins : Evaluation.Begins _ (start.runLines true stackLines) :=
    begins_evaluate hstart witnessLines
  -- The run begins on an empty machine, so what it has pushed is all there is.
  have hempty : start = (new .standard).under m.rules template := by
    rw [← hstart, withTemplate_clear]
  obtain ⟨elements, hgives, hmachine⟩ := exists_gives_of_runLines (m := start)
    (by rw [hempty]; rfl) (by rw [hempty]; rfl) hf
  have hpushed : (start.runLines true stackLines).machine.stack = elements := by
    rw [hmachine, hempty]
    simp [stack, pushed, under, new]
  have hstack : (m.evaluate stackLines witnessLines template).1.firstStack = elements := by
    rw [hbegins.stack, hf]
    exact hpushed
  refine ⟨hstack ▸ hgives, ?_, hpushed.trans hstack.symm, ?_, ?_⟩
  · rw [hbegins.unlocking, hmachine, hstack, hempty]
    rfl
  · rw [hmachine, hempty]
    rfl
  · rw [hmachine, hempty]
    rfl

/-- **The first pane is pure data.** What an evaluation says of its first pane depends on
neither rule set nor template, nor on the second pane; and where no line of the first pane
fails, it has done nothing but push the elements of its lines. -/
theorem evaluate_firstPane (m n : Machine) (stackLines witnessLines witnessLines' : List Text)
    (template template' : Option Template) :
    (m.evaluate stackLines witnessLines template).1.SameFirstPane
      (n.evaluate stackLines witnessLines' template').1 ∧
    ((m.evaluate stackLines witnessLines template).1.firstFailure = none →
      (m.evaluate stackLines witnessLines template).1.OnlyPushes stackLines
        ((m.clear.withTemplate template).runLines true stackLines).machine) :=
  ⟨sameFirstPane m n _ _ _ _ _, onlyPushes⟩

/-- Two pushes with an empty line between them. -/
def twoPushes : List Text := [['<', '1', '>'], [], ['<', '0', 'x', 'f', 'f', '>']]

theorem evaluate_firstPane_twoPushes :
    ((new .standard).evaluate twoPushes [['O', 'P', '_', 'D', 'U', 'P']] none).1.firstFailure =
      none ∧
    ((new .standard).evaluate twoPushes [['O', 'P', '_', 'D', 'U', 'P']] none).1.firstStack =
      [.number 1, .raw [0xff]] ∧
    ((new .standard).evaluate twoPushes [['O', 'P', '_', 'D', 'U', 'P']] none).1.SameFirstPane
      ((new ⟨.liquid, .tapscript⟩).evaluate twoPushes [] (some Template.blank)).1 ∧
    ((new .standard).evaluate twoPushes [['O', 'P', '_', 'D', 'U', 'P']] none).1.OnlyPushes twoPushes
      (((new .standard).clear.withTemplate none).runLines true twoPushes).machine := by
  have hpassed : ((new .standard).evaluate twoPushes [['O', 'P', '_', 'D', 'U', 'P']]
      none).1.firstFailure = none := by
    decide +kernel
  obtain ⟨hsame, hpushes⟩ := evaluate_firstPane (new .standard) (new ⟨.liquid, .tapscript⟩)
    twoPushes [['O', 'P', '_', 'D', 'U', 'P']] [] none (some Template.blank)
  exact ⟨hpassed, by decide +kernel, hsame, hpushes hpassed⟩

end Machine

end ScriptBench
