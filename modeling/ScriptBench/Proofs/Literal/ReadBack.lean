import ScriptBench.Proofs.Evaluation.Reference
import ScriptBench.Proofs.Literal.Spelling
import ScriptBench.Proofs.Machine.Run

/-! Literals read back.

From the text of a pane with one literal on it to the element on the stack: the
element has the bytes that were written and gives back what was written, unless
it is too long to be pushed. -/
namespace ScriptBench

theorem Spelling.length_bytes_number {n : Int} (h : Number.inWord64 n = true) :
    (number n h).bytes.length ≤ Element.maxSize :=
  Nat.le_trans (Number.length_encode_le h) (by decide)

namespace Machine

/-! ### A pane of one line -/

section
variable {m n start : Machine} {line : Text} {template : Option Template}

theorem runLines_blank (m : Machine) (pushOnly : Bool) (count : Nat) :
    m.runLines pushOnly (List.replicate count []) = ⟨List.replicate count .blank, none, m⟩ := by
  have hstep : m.step pushOnly [] = (m, none) := rfl
  induction count with
  | zero => rfl
  | succ count ih =>
    simp only [List.replicate_succ, runLines, hstep, ih]
    rfl

/-- A line that does not fail, and nothing after it. -/
theorem evaluate_line_passed (hstart : m.clear.withTemplate template = start)
    (h : start.step true line = (n, none)) (count : Nat) :
    m.evaluate [line] (List.replicate count []) template =
      ({ snapshots := n.snapshot line :: List.replicate count .blank
         failure := none
         firstStack := n.stack
         boundary := 1
         unlocking := n.bytecode
         witness := [] }, n) := by
  have hfirst : start.runLines true [line] = ⟨[n.snapshot line], none, n⟩ := by
    simp only [runLines, h]
  rw [evaluate_of_passed hstart (by rw [hfirst]) _ hfirst (n.runLines_blank false count)]
  simp [Run.failedLine]

/-- A line that fails ends the evaluation. -/
theorem evaluate_line_failed (hstart : m.clear.withTemplate template = start) {message : String}
    (h : start.step true line = (n, some message)) (witnessLines : List Text) :
    m.evaluate [line] witnessLines template =
      ({ snapshots := []
         failure := some ⟨1, message⟩
         firstStack := []
         boundary := 1
         unlocking := n.bytecode
         witness := [] }, n) := by
  have hfirst : start.runLines true [line] = ⟨[], some message, n⟩ := by
    simp only [runLines, h]
  rw [evaluate_of_failed hstart (by rw [hfirst]), hfirst]
  rfl

/-- The line of a spelling pushes its literal. -/
theorem step_spelling (m : Machine) (s : Spelling) :
    m.step true s.text =
      (m.call (.push s.literal), (m.call (.push s.literal)).error.map (·.message)) := by
  rw [step, s.feed_text]
  rfl

/-- The machine an evaluation begins with. -/
structure Fresh (m : Machine) : Prop where
  empty : m.toStacks = ⟨[], [], []⟩
  error : m.error = none
  bytecode : m.bytecode = []

theorem fresh_new (r : RuleSet) (template : Option Template) :
    ((new r).clear.withTemplate template).Fresh := by
  cases template <;> exact ⟨rfl, rfl, rfl⟩

namespace Fresh

theorem stack_fail (h : start.Fresh) (e : ScriptError) : (start.fail e).stack = [] :=
  congrArg (·.main.reverse) h.empty

/-- The first literal is the only element. -/
theorem call_literal (h : start.Fresh) {l : Literal} {e : Element} (hl : l.element = .ok e)
    (hsize : e.size ≤ Element.maxSize) :
    (start.call (.push l)).error = none ∧ (start.call (.push l)).stack = [e] := by
  rw [Machine.call_literal h.error hl hsize]
  refine ⟨h.error, ?_⟩
  simp [stack, h.empty, Stacks.executing]

theorem call_tooLong (h : start.Fresh) {l : Literal} {e : Element} (hl : l.element = .ok e)
    (hsize : ¬e.size ≤ Element.maxSize) :
    start.call (.push l) = start.fail (.literalSize e.size Element.maxSize) := by
  rw [call_push h.error, hl]
  exact if_neg hsize

end Fresh

end

/-! ### From the text of the pane -/

/-- **Every literal reads back**, whatever stands around it: nothing fails, and the one
element on the stack has the bytes that were written and gives back what was written.
Data too long to be pushed fails the line and leaves nothing; a number never is. -/
theorem evaluate_spelling (r : RuleSet) (template : Option Template) (s : Spelling)
    (around : SourceLine.Surroundings) (count : Nat) :
    let result := (new r).evaluate (SourceLine.ofText (around.around s.text))
      (List.replicate count []) template
    (s.bytes.length ≤ 520 → result.1.failure = none ∧
      ∃ e, result.1.snapshots = .stack [e] :: List.replicate count .blank ∧
        e.bytes = s.bytes ∧ s.ReadBack e) ∧
    (520 < s.bytes.length →
      result.1.failure = some ⟨1, (ScriptError.literalSize s.bytes.length 520).message⟩ ∧
      result.2.error = some (.literalSize s.bytes.length 520) ∧ result.1.snapshots = [] ∧
      result.2.stack = [] ∧ result.2.bytecode = [] ∧ result.1.bytecode = []) ∧
    ∀ k word, s = .number k word → s.bytes.length ≤ 520 := by
  obtain ⟨e, helement, hbytes, hback⟩ := s.exists_element
  have hsize : e.size = s.bytes.length := congrArg List.length hbytes
  have hfresh := fresh_new r template
  generalize hstart : (new r).clear.withTemplate template = start at hfresh
  have hstep := start.step_spelling s
  rw [s.ofText_around]
  refine ⟨fun hfits => ?_, fun hlong => ?_, ?_⟩
  · obtain ⟨herror, hstack⟩ := hfresh.call_literal helement (hsize ▸ hfits)
    rw [herror] at hstep
    rw [evaluate_line_passed hstart hstep]
    refine ⟨rfl, e, ?_, hbytes, hback⟩
    rw [← hstack]
    rfl
  · have hcall := hfresh.call_tooLong helement (hsize ▸ Nat.not_le_of_lt hlong)
    rw [hcall, hsize] at hstep
    rw [evaluate_line_failed hstart hstep]
    exact ⟨rfl, rfl, rfl, hfresh.stack_fail _, hfresh.bytecode,
      (List.append_nil _).trans hfresh.bytecode⟩
  · rintro k word rfl
    exact Spelling.length_bytes_number word

/-- A text with the marks of comments, the other quote and a bracket in it. -/
def markedText : Text := "/* \"a\" // <b>".toList

def markedSpelling : Spelling := .quoted '\'' markedText (.inr rfl) (by decide) (by decide)

def markedSurroundings : SourceLine.Surroundings where
  lead := ['\t']
  trail := [' ']
  comment := "// it's".toList
  lead_blank := List.forall_mem_singleton.mpr rfl
  trail_blank := List.forall_mem_singleton.mpr rfl
  comment_opens := .inr ⟨" it's".toList, rfl⟩
  oneLine := by decide

theorem evaluate_spelling_marked :
    String.ofList (markedSurroundings.around markedSpelling.text) =
        "\t<'/* \"a\" // <b>'> // it's" ∧
      ∃ e, ((new .standard).evaluate
          (SourceLine.ofText "\t<'/* \"a\" // <b>'> // it's".toList) [[]] none).1.snapshots =
            [.stack [e], .blank] ∧
        e.bytes = markedText.utf8 ∧ e.text? = some markedText := by
  have hline : String.ofList (markedSurroundings.around markedSpelling.text) =
      "\t<'/* \"a\" // <b>'> // it's" := by decide
  obtain ⟨-, e, hsnapshots, hbytes, hback⟩ :=
    (evaluate_spelling .standard none markedSpelling markedSurroundings 1).1 (by decide +kernel)
  refine ⟨hline, e, ?_, hbytes, hback⟩
  rw [← hline, String.toList_ofList]
  exact hsnapshots

end Machine

end ScriptBench
