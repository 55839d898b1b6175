import ScriptBench.Proofs.Machine.History
import ScriptBench.Proofs.Session.Core

/-! A session loses no edit and shows no stale result.

Either nothing waits, and then the lines of the editors are the committed ones and the
result is theirs; or the lines that wait are those of the editors, and the result is
that of the lines before, its failure perhaps no longer shown. The result is always
what a new machine would give: the session keeps one machine for all evaluations, and
an evaluation does not depend on what the machine was used for before. -/
namespace ScriptBench.Session

namespace Core
variable {r : RuleSet} {c d : Core}

/-- What a new machine makes of the committed lines. -/
def fresh (r : RuleSet) (c : Core) : Evaluation :=
  r.evaluate c.committed.stack c.committed.witness c.template

/-- The lines of the editors have been committed, or they wait. -/
structure Tracks (r : RuleSet) (c : Core) : Prop where
  rules : c.machine.rules = r
  waiting : ∀ due lines, c.debouncer.pending = some (due, lines) → lines = c.current
  committed : c.debouncer.pending = none → c.committed = c.current

/-- Nothing waits. -/
structure Settled (r : RuleSet) (c : Core) : Prop where
  rules : c.machine.rules = r
  nothing : c.debouncer.pending = none
  committed : c.committed = c.current

/-- The lines are tracked, and the result is that of the committed ones. -/
structure Sound (r : RuleSet) (c : Core) : Prop extends Tracks r c where
  shown : c.evaluation = c.fresh r ∨ c.evaluation = { c.fresh r with failure := none }
  exact : c.debouncer.pending = none → c.evaluation = c.fresh r
  compile : c.modal = some .compile → c.debouncer.pending = none

theorem Settled.sound (h : c.Settled r) (heval : c.evaluation = c.fresh r) : c.Sound r where
  rules := h.rules
  waiting := fun due lines hp => by
    rw [h.nothing] at hp
    cases hp
  committed := fun _ => h.committed
  shown := .inl heval
  exact := fun _ => heval
  compile := fun _ => h.nothing

/-! ### Evaluating and committing -/

/-- The machine's own history does not show in a result. -/
theorem evaluation_evaluate (h : c.machine.rules = r) : c.evaluate.evaluation = c.fresh r := by
  show (c.machine.evaluate c.committed.stack c.committed.witness c.template).1 = _
  rw [Machine.evaluate_eq_new, h]
  rfl

theorem rules_evaluate (h : c.machine.rules = r) : c.evaluate.machine.rules = r :=
  (Machine.evaluate_rules ..).trans h

/-- Evaluating anew shows the result of the lines, if nothing waits. -/
theorem Settled.evaluate (h : c.Settled r) : c.evaluate.Sound r := by
  have hsettled : c.evaluate.Settled r := ⟨rules_evaluate h.rules, h.nothing, h.committed⟩
  exact hsettled.sound (evaluation_evaluate h.rules)

/-- What a flush does: it commits the lines that wait, or nothing waits. -/
theorem Tracks.flush_cases (h : c.Tracks r) :
    (c.flush = c ∧ c.Settled r) ∨
      ∃ e : Core, c.flush = e.evaluate ∧ e.Settled r := by
  cases hp : c.debouncer.pending with
  | none => exact .inl ⟨by simp only [flush, hp], h.rules, hp, h.committed hp⟩
  | some waiting =>
    obtain ⟨due, lines⟩ := waiting
    refine .inr ⟨{ c with debouncer := c.debouncer.cancel, committed := lines }, ?_, ?_⟩
    · simp only [flush, hp]
    · exact ⟨h.rules, rfl, h.waiting due lines hp⟩

theorem Tracks.flush_settled (h : c.Tracks r) : c.flush.Settled r := by
  obtain ⟨hflush, hsettled⟩ | ⟨e, hflush, hsettled⟩ := h.flush_cases
  · rwa [hflush]
  · rw [hflush]
    exact ⟨rules_evaluate hsettled.rules, hsettled.nothing, hsettled.committed⟩

theorem Sound.flush (h : c.Sound r) : c.flush.Sound r := by
  obtain ⟨hflush, -⟩ | ⟨e, hflush, hsettled⟩ := h.flush_cases
  · rwa [hflush]
  · rw [hflush]
    exact hsettled.evaluate

/-! ### Every step -/

theorem Sound.edited (h : c.Sound r) (noModal : c.modal = none) (lines : PaneLines) (now : Nat) :
    (c.edited lines now).Sound r where
  rules := h.rules
  waiting := fun due waiting hp => by
    cases hp
    rfl
  committed := fun hp => by cases hp
  shown := by
    refine .inr ?_
    show { c.evaluation with failure := none } = { c.fresh r with failure := none }
    obtain hshown | hshown := h.shown <;> rw [hshown]
  exact := fun hp => by cases hp
  compile := fun hm => by
    rw [show (c.edited lines now).modal = none from noModal] at hm
    cases hm

/-- Opening or closing a modal, the compiled program only if nothing waits. -/
theorem Sound.withModal (h : c.Sound r) {modal : Option Modal}
    (hmodal : modal = some .compile → c.debouncer.pending = none) :
    ({ c with modal } : Core).Sound r :=
  ⟨⟨h.rules, h.waiting, h.committed⟩, h.shown, h.exact, hmodal⟩

/-- Another template settles the lines before they are evaluated with it. -/
theorem Sound.supplied (h : c.Sound r) (template : Option Template) :
    (c.supplied template).Sound r := by
  have htracks : ({ c with template, modal := none } : Core).Tracks r :=
    ⟨h.rules, h.waiting, h.committed⟩
  exact htracks.flush_settled.evaluate

theorem Step.sound (hstep : c.Step d) (h : c.Sound r) : d.Sound r := by
  cases hstep with
  | keep => exact h
  | edit lines now noModal => exact h.edited noModal lines now
  | flush => exact h.flush
  | openCompile => exact h.flush.withModal fun _ => h.flush_settled.nothing
  | openTemplate => exact h.withModal fun hm => by cases hm
  | close => exact h.withModal fun hm => by cases hm
  | supply template => exact h.supplied template

end Core

/-! ### Every session -/

theorem sound_start (r : RuleSet) (stack witness : Text) (template : Option Template) :
    (start r stack witness template).core.Sound r := by
  have hsettled : (start r stack witness template).core.Settled r :=
    ⟨Machine.evaluate_rules .., rfl, rfl⟩
  exact hsettled.sound rfl

theorem sound_run {r : RuleSet} {s : Session} (h : s.core.Sound r) (events : List Event) :
    (s.run events).core.Sound r := by
  induction events generalizing s with
  | nil => exact h
  | cons e rest ih => exact ih ((step_core s e).sound h)

/-- What is shown is up to date: what waits are the lines of the editors, and what does not
wait has been evaluated. -/
structure UpToDate (r : RuleSet) (s : Session) : Prop where
  /-- While lines wait, they are those of the editors, and the result is that of the
  committed lines, perhaps without its failure. -/
  waiting : ∀ due lines, s.debouncer.pending = some (due, lines) →
    lines = PaneLines.ofBuffers s.stackEditor s.witnessEditor ∧
    (s.evaluation = r.evaluate s.lines.stack s.lines.witness s.template ∨
      s.evaluation = { r.evaluate s.lines.stack s.lines.witness s.template with failure := none })
  /-- When no lines wait, the committed lines are those of the editors, and the result is
  theirs. -/
  settled : s.debouncer.pending = none →
    s.lines = PaneLines.ofBuffers s.stackEditor s.witnessEditor ∧
    s.evaluation = r.evaluate s.lines.stack s.lines.witness s.template
  compile : s.modal = some .compile → s.debouncer.pending = none

/-- **No edit is lost and no stale result is shown**, whatever happens to a session and
whenever it happens. -/
theorem run_upToDate (r : RuleSet) (stack witness : Text) (template : Option Template)
    (events : List Event) : ((start r stack witness template).run events).UpToDate r := by
  have h := sound_run (sound_start r stack witness template) events
  exact ⟨fun due lines hp => ⟨h.waiting due lines hp, h.shown⟩,
    fun hp => ⟨h.committed hp, h.exact hp⟩, h.compile⟩

end ScriptBench.Session
