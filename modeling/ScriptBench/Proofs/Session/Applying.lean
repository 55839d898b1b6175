import ScriptBench.Proofs.Session.Start
import ScriptBench.Proofs.Session.UpToDate
import ScriptBench.Proofs.Template.RoundTrip

/-! A template is put to use as a whole or not at all.

A text that is refused leaves a session as it was, and only the flaw that was found in it is new.
A text that is accepted settles everything at once: the lines that waited are committed, and the
result is that of the lines of the editors with the new template. The text that the modal opens
with is one that is accepted if the template can be put to use. It is the template as it is
printed, and an editor takes lines apart and joins them again without a loss, because no carriage
return is printed. -/
namespace ScriptBench

theorem SourceLine.stripReturn_of_not_mem {t : Text} (h : '\r' ∉ t) : stripReturn t = t := by
  obtain heq | heq := eq_or_eq_append_return t
  · exact heq
  · rw [heq] at h
    simp at h

namespace TextBuffer

/-- A text without carriage returns is the text of its editor. -/
theorem text_ofText {t : Text} (h : '\r' ∉ t) : (ofText t).text = t := by
  have hlines : t.lines.map SourceLine.stripReturn = t.lines := by
    refine (List.map_congr_left fun l hl => ?_).trans (List.map_id _)
    exact SourceLine.stripReturn_of_not_mem fun hr => h (Text.mem_of_mem_lines hl hr)
  rw [text, lines_ofText, hlines, Text.unlines_lines]

theorem text_ofText_pretty (t : Template) : (ofText t.pretty).text = t.pretty :=
  text_ofText (t.legible_toJson.return_not_mem_print 0)

end TextBuffer

namespace Session

/-! ### Another template -/

namespace Core
variable {r : RuleSet} {c : Core}

theorem flush_frame (c : Core) :
    c.flush.current = c.current ∧ c.flush.template = c.template ∧ c.flush.modal = c.modal := by
  unfold flush
  split <;> exact ⟨rfl, rfl, rfl⟩

/-- Nothing is open or waits, and the result is that of the editors with a template or without. -/
structure SettledWith (r : RuleSet) (supply : Option Template) (c : Core) : Prop where
  template : c.template = supply
  modal : c.modal = none
  pending : c.debouncer.pending = none
  evaluation : c.evaluation = r.evaluate c.current.stack c.current.witness supply

theorem Sound.settledWith_supplied (h : c.Sound r) (template : Option Template) :
    (c.supplied template).SettledWith r template := by
  have htracks : ({ c with template, modal := none } : Core).Tracks r :=
    ⟨h.rules, h.waiting, h.committed⟩
  obtain ⟨-, htemplate, hmodal⟩ := flush_frame { c with template, modal := none }
  have hsettled := htracks.flush_settled
  have hsound := hsettled.evaluate
  refine ⟨htemplate, hmodal, hsettled.nothing, ?_⟩
  have hexact := hsound.exact hsettled.nothing
  rw [fresh, hsound.committed hsettled.nothing] at hexact
  exact hexact.trans (congrArg (r.evaluate _ _) htemplate)

end Core

variable {s : Session} {t : Template}

/-! ### Accepting the text of the modal -/

/-- What accepting the text of a template makes of a session: the template is in use, the modal is
closed without a flaw, nothing waits, and the result is that of the editors as they were. -/
structure Applies (r : RuleSet) (t : Template) (s u : Session) : Prop where
  template : u.template = some t
  modal : u.modal = none
  flaw : u.templateFlaw = none
  pending : u.debouncer.pending = none
  stackEditor : u.stackEditor = s.stackEditor
  witnessEditor : u.witnessEditor = s.witnessEditor
  evaluation : u.evaluation = r.evaluate s.currentLines.stack s.currentLines.witness (some t)

theorem core_applyTemplate (h : Template.parse s.templateEditor.text = .ok t) :
    s.applyTemplate.core = s.core.supplied (some t) := by
  have hflush := core_flush { s with template := some t, templateFlaw := none, modal := none }
  rw [applyTemplate, h, Core.supplied]
  exact congrArg Core.evaluate hflush

/-- A flush changes neither an editor nor the flaw. -/
theorem flush_frame (s : Session) :
    s.flush.stackEditor = s.stackEditor ∧ s.flush.witnessEditor = s.witnessEditor ∧
      s.flush.templateFlaw = s.templateFlaw := by
  obtain ⟨_, _, _, _, _, ⟨delay, pending⟩⟩ := s
  cases pending <;> exact ⟨rfl, rfl, rfl⟩

theorem applies_applyTemplate {r : RuleSet} (hs : s.core.Sound r)
    (h : Template.parse s.templateEditor.text = .ok t) : Applies r t s s.applyTemplate := by
  have hcore := hs.settledWith_supplied (some t)
  rw [← core_applyTemplate h] at hcore
  obtain ⟨hstack, hwitness, hflaw⟩ :
      s.applyTemplate.stackEditor = s.stackEditor ∧
        s.applyTemplate.witnessEditor = s.witnessEditor ∧ s.applyTemplate.templateFlaw = none := by
    rw [applyTemplate, h]
    exact flush_frame { s with template := some t, templateFlaw := none, modal := none }
  have hlines : s.applyTemplate.currentLines = s.currentLines := by
    rw [currentLines, hstack, hwitness, currentLines]
  have hevaluation := hcore.evaluation
  rw [show s.applyTemplate.core.current = s.currentLines from hlines] at hevaluation
  exact ⟨hcore.template, hcore.modal, hflaw, hcore.pending, hstack, hwitness, hevaluation⟩

/-- The text that the modal opens with is that of the template in use. -/
theorem parse_openTemplate (htemplate : s.template = some t) (hvalid : t.validate = .ok ()) :
    Template.parse s.openTemplate.templateEditor.text = .ok t := by
  have htext : s.openTemplate.templateEditor.text = t.pretty := by
    rw [openTemplate, htemplate]
    exact TextBuffer.text_ofText_pretty t
  rw [htext, (Template.parse_pretty t).1, hvalid]
  rfl

/-! ### Every session -/

/-- A letter pressed together with control. -/
def control (c : Char) (now : Nat) : Event := .key (.char c) true now

theorem step_control_s (hmodal : s.modal = some .template) (now : Nat) :
    s.step (control 's' now) = s.applyTemplate := by
  simp [step, control, handleKey, hmodal, templateKey]

theorem step_control_t (hmodal : s.modal = none) (now : Nat) :
    s.step (control 't' now) = s.openTemplate := by
  simp [step, control, handleKey, hmodal, controlKey]

/-- Under a modal the key that opens the template does nothing. -/
theorem step_control_t_of_modal (hmodal : s.modal ≠ none) (now : Nat) :
    s.step (control 't' now) = s := by
  obtain ⟨modal, hmodal⟩ := Option.ne_none_iff_exists'.mp hmodal
  cases modal <;> simp [step, control, handleKey, hmodal, compileKey, templateKey]

/-- So does the key that accepts it, while the compiled program is shown. -/
theorem step_control_s_of_compile (hmodal : s.modal = some .compile) (now : Nat) :
    s.step (control 's' now) = s := by
  simp [step, control, handleKey, hmodal, compileKey]

/-- Opening the template in use and accepting it at once leaves the lines and the template, and
settles them. -/
theorem applies_reopened {r : RuleSet} (hs : s.core.Sound r) (hmodal : s.modal = none)
    (htemplate : s.template = some t) (hvalid : t.validate = .ok ()) (now later : Nat) :
    Applies r t s (s.run [control 't' now, control 's' later]) := by
  have hopened : s.run [control 't' now, control 's' later] = s.openTemplate.applyTemplate := by
    rw [run, List.foldl_cons, List.foldl_cons, List.foldl_nil, step_control_t hmodal,
      step_control_s rfl]
  have hsound : s.openTemplate.core.Sound r :=
    @Core.Sound.withModal r s.core hs (some .template) fun hm => by cases hm
  have happlies := applies_applyTemplate hsound (parse_openTemplate htemplate hvalid)
  rw [hopened]
  exact { happlies with }

/-- **A template is put to use as a whole or not at all.** In every session with the template's
modal open, a text that is refused leaves everything but the flaw, and one that is accepted puts
the template to use, closes the modal and settles the lines of the editors with it. Where a
template that can be put to use is in use, opening it and accepting it at once leaves it in use,
with the result of the lines of the editors. -/
theorem run_applies (r : RuleSet) (stack witness : Text) (template : Option Template)
    (events : List Event) (now later : Nat) :
    let s := (start r stack witness template).run events
    (s.modal = some .template → ∀ b : TextBuffer,
      let u : Session := { s with templateEditor := b }
      (∀ flaw, Template.parse b.text = .error flaw →
        u.step (control 's' now) = { u with templateFlaw := some flaw }) ∧
      ∀ t, Template.parse b.text = .ok t → Applies r t u (u.step (control 's' now))) ∧
    ∀ t, s.template = some t → t.validate = .ok () →
      (s.modal = none → Applies r t s (s.run [control 't' now, control 's' later])) ∧
      (s.modal = some .compile → s.run [control 't' now, control 's' later] = s ∧
        s.evaluation = r.evaluate s.currentLines.stack s.currentLines.witness (some t)) ∧
      (s.modal = some .template → s.step (control 't' now) = s) := by
  intro s
  have hs : s.core.Sound r := sound_run (sound_start r stack witness template) events
  refine ⟨fun hmodal b => ?_, fun t htemplate hvalid => ⟨fun hmodal => ?_, fun hmodal => ?_,
    fun hmodal => ?_⟩⟩
  · intro u
    have hu : u.core.Sound r := hs
    have hopen : u.modal = some .template := hmodal
    rw [step_control_s hopen]
    refine ⟨fun flaw h => ?_, fun t h => applies_applyTemplate hu h⟩
    rw [applyTemplate, h]
  · exact applies_reopened hs hmodal htemplate hvalid now later
  · have hkeep : s.run [control 't' now, control 's' later] = s := by
      rw [run, List.foldl_cons, List.foldl_cons, List.foldl_nil,
        step_control_t_of_modal (by simp [hmodal]), step_control_s_of_compile hmodal]
    have hpending := hs.compile hmodal
    have hexact := hs.exact hpending
    rw [Core.fresh, hs.committed hpending] at hexact
    exact ⟨hkeep, hexact.trans (congrArg (r.evaluate _ _) htemplate)⟩
  · exact step_control_t_of_modal (by simp [hmodal]) now

/-- A template with which a lock time is met. -/
def lockable : Template :=
  { Template.blank with inputs := [{ Template.blankInput with sequence := 0 }] }

theorem run_applies_lockTime :
    let s := (start .standard "<0>".toList "OP_CHECKLOCKTIMEVERIFY".toList none).run [control 't' 0]
    let u := (start .standard "<0>".toList "OP_CHECKLOCKTIMEVERIFY".toList (some lockable)).run []
    s.modal = some .template ∧
    { s with templateEditor := TextBuffer.ofText "not json".toList }.step (control 's' 1) =
      { s with templateEditor := TextBuffer.ofText "not json".toList, templateFlaw := some .json } ∧
    Applies .standard lockable { s with templateEditor := TextBuffer.ofText lockable.pretty }
      ({ s with templateEditor := TextBuffer.ofText lockable.pretty }.step (control 's' 1)) ∧
    u.modal = none ∧ u.template = some lockable ∧
    Applies .standard lockable u (u.run [control 't' 1, control 's' 2]) := by
  intro s u
  have hmodal : s.modal = some .template := rfl
  have hvalid : lockable.validate = .ok () := by decide +kernel
  have hrefused : Template.parse (TextBuffer.ofText "not json".toList).text = .error .json := by
    decide +kernel
  have haccepted : Template.parse (TextBuffer.ofText lockable.pretty).text = .ok lockable := by
    rw [TextBuffer.text_ofText_pretty, (Template.parse_pretty _).1, hvalid]
    rfl
  obtain ⟨happly, -⟩ := run_applies .standard "<0>".toList "OP_CHECKLOCKTIMEVERIFY".toList none
    [control 't' 0] 1 2
  obtain ⟨-, hkeep⟩ := run_applies .standard "<0>".toList "OP_CHECKLOCKTIMEVERIFY".toList
    (some lockable) [] 1 2
  exact ⟨hmodal, (happly hmodal _).1 _ hrefused, (happly hmodal _).2 _ haccepted, rfl, rfl,
    (hkeep _ rfl hvalid).1 rfl⟩

end Session

end ScriptBench
