import ScriptBench.Proofs.Evaluation.FirstPane

/-! What is left of a machine that has been fed a line.

`Machine.feed` gives a machine or a refusal, and says nothing of the machine that a line is refused
by. So the line is read here in place: it is classified, held against what is allowed, looked up
where it names an opcode, and then handed over in one call. Every refusal comes before that call.
Where only pushes are allowed the call is that of a literal, which is recorded and pushed, or sets
the error and nothing else. -/
namespace ScriptBench.Machine

/-- One call to the machine at hand. -/
def hand (c : Call) : EStateM Refusal Machine Unit := modify (·.call c)

/-- What a line of a form asks of the machine at hand. -/
def handInput (line : Text) : Input → EStateM Refusal Machine Unit
  | .hex digits => hand (.push (.hex digits))
  | .binary digits => hand (.push (.binary digits))
  | .text t => hand (.push (.text t))
  | .number n => hand (.push (.number n))
  | .pushedOpcode word => do
    match (← get).rules.opcode? (String.ofList word) with
    | some o => hand (.push (.hex (Bytes.hexDigits [o.byte])))
    | none => throw (.unknownOpcode (String.ofList word))
  | .opcode word => hand (.word (String.ofList word))
  | .invalid => throw (.unrecognized (String.ofList line))

/-- Feeds a line to the machine at hand, which a refusal leaves behind as it is by then. -/
def feedInPlace (pushOnly : Bool) (line : Text) : EStateM Refusal Machine Unit :=
  let input := Input.ofLine line
  if pushOnly && !input.isPush then throw .pushOnly else handInput line input

/-- The machine that a line leaves behind, refused or not. -/
def left (m : Machine) (pushOnly : Bool) (line : Text) : Machine :=
  match (feedInPlace pushOnly line).run m with
  | .ok _ n => n
  | .error _ n => n

/-- Nothing but a push has been done to a machine: where it held no error and the line gives an
element, the element has been recorded, and pushed in a branch that is run; otherwise there is
nothing more recorded and nothing more on the stack. -/
structure PushesOnly (m : Machine) (line : Text) (n : Machine) : Prop where
  alt : n.alt = m.alt
  conditions : n.conditions = m.conditions
  template : n.template = m.template
  rules : n.rules = m.rules
  data : (m.error = none ∧ ∃ e, Input.Gives line e ∧ e.bytes.length ≤ 520 ∧
      n.bytecode = m.bytecode ++ Bytecode.push e.bytes ∧
      n.main = if m.executing then e :: m.main else m.main) ∨
    (m.error = none → ∀ e, ¬ Input.Gives line e) ∧
      n.bytecode = m.bytecode ∧ n.main = m.main

variable {m : Machine} {pushOnly : Bool} {line : Text}

/-! ### Refusals -/

/-- Handing a line over is the call it stands for; a refusal leaves the machine that was there. -/
theorem run_handInput (m : Machine) (line : Text) (input : Input) :
    (handInput line input).run m =
      match input.call m.rules line with
      | .ok c => .ok () (m.call c)
      | .error r => .error r m := by
  cases input with
  | pushedOpcode word =>
    have hrun : (handInput line (.pushedOpcode word)).run m =
        EStateM.run (match m.rules.opcode? (String.ofList word) with
          | some o => hand (.push (.hex (Bytes.hexDigits [o.byte])))
          | none => throw (.unknownOpcode (String.ofList word))) m := rfl
    rw [hrun, Input.call]
    cases m.rules.opcode? (String.ofList word) <;> rfl
  | _ => rfl

/-- Feeding in place is feeding, and a refusal leaves the machine that was there. -/
theorem run_feedInPlace (m : Machine) (pushOnly : Bool) (line : Text) :
    (feedInPlace pushOnly line).run m =
      match m.feed pushOnly line with
      | .ok n => .ok () n
      | .error r => .error r m := by
  unfold feedInPlace feed
  dsimp only
  split
  · rfl
  · rw [run_handInput]
    cases (Input.ofLine line).call m.rules line <;> rfl

theorem eq_of_refused {r : Refusal} {n : Machine}
    (h : (feedInPlace pushOnly line).run m = .error r n) : n = m := by
  rw [run_feedInPlace] at h
  cases hfeed : m.feed pushOnly line with
  | ok n' =>
    rw [hfeed] at h
    cases h
  | error r' =>
    rw [hfeed] at h
    cases h
    rfl

/-! ### Pushes -/

/-- Where nothing but the error is new, no more has been pushed. -/
theorem pushesOnly_of_idle (hidle : m.error = none → ∀ e, ¬ Input.Gives line e)
    (error : Option ScriptError) : m.PushesOnly line { m with error } where
  alt := rfl
  conditions := rfl
  template := rfl
  rules := rfl
  data := .inr ⟨hidle, rfl, rfl⟩

/-- The call of a literal only pushes. -/
theorem pushesOnly_call {l : Literal} (hdatum : (Input.ofLine line).datum line = .ok l) :
    m.PushesOnly line (m.call (.push l)) := by
  cases hm : m.error with
  | some why =>
    rw [call_of_error hm]
    exact pushesOnly_of_idle (fun hnone => by rw [hm] at hnone; cases hnone) m.error
  | none =>
    by_cases hpushes : ∃ e, l.Pushes e
    · obtain ⟨e, he⟩ := hpushes
      rw [call_literal hm he.element he.size]
      exact
        { alt := rfl
          conditions := rfl
          template := rfl
          rules := rfl
          data := .inl ⟨hm, e, ⟨l, hdatum, he⟩, he.size, rfl, rfl⟩ }
    · -- The literal is malformed or too long, and that is all the machine keeps of it.
      have hfault : ∃ why, m.call (.push l) = m.fail why := by
        rw [call_push hm]
        cases hl : l.element with
        | error why => exact ⟨why, rfl⟩
        | ok e =>
          have hsize : ¬ e.size ≤ Element.maxSize := fun hsize => hpushes ⟨e, hl, hsize⟩
          exact ⟨_, if_neg hsize⟩
      obtain ⟨why, hcall⟩ := hfault
      rw [hcall]
      refine pushesOnly_of_idle (fun _ e hgives => ?_) (some why)
      obtain ⟨l', hdatum', he⟩ := hgives
      rw [hdatum] at hdatum'
      cases hdatum'
      exact hpushes ⟨e, he⟩

/-- A line of the first pane only pushes, or is refused. -/
theorem pushesOnly_left (m : Machine) (line : Text) : m.PushesOnly line (m.left true line) := by
  unfold left
  rw [run_feedInPlace, feed_pushOnly]
  cases hdatum : (Input.ofLine line).datum line with
  | ok l => exact pushesOnly_call hdatum
  | error r =>
    refine pushesOnly_of_idle (fun _ e hgives => ?_) m.error
    obtain ⟨l, hl, -⟩ := hgives
    rw [hdatum] at hl
    cases hl

/-- **A refused line has no effect, and where only pushes are allowed, no line has more than that
of a push,** whatever the machine. -/
theorem feedInPlace_effects (m : Machine) (line : Text) :
    (∀ pushOnly r n, (feedInPlace pushOnly line).run m = .error r n → n = m) ∧
      (∀ pushOnly r, m.feed pushOnly line = .error r ↔
        (feedInPlace pushOnly line).run m = .error r m) ∧
      (∀ pushOnly n, m.feed pushOnly line = .ok n ↔
        (feedInPlace pushOnly line).run m = .ok () n) ∧
      m.PushesOnly line (m.left true line) := by
  refine ⟨fun pushOnly r n => eq_of_refused, fun pushOnly r => ?_, fun pushOnly n => ?_,
    pushesOnly_left m line⟩
  · rw [run_feedInPlace]
    cases m.feed pushOnly line <;> simp
  · rw [run_feedInPlace]
    cases m.feed pushOnly line <;> simp

/-- A machine with something of everything, in a branch that is not run. -/
def skipping : Machine :=
  { new .standard with
    main := [.number 1], alt := [.text ['a']], conditions := [false]
    template := some Template.blank, bytecode := [0x63] }

/-- The word of no opcode is refused, and a push in such a branch is only recorded. -/
theorem feedInPlace_effects_skipping :
    (feedInPlace false "<OP_NOPE>".toList).run skipping =
        .error (.unknownOpcode "OP_NOPE") skipping ∧
      skipping.PushesOnly "<0xff>".toList (skipping.left true "<0xff>".toList) ∧
      (skipping.left true "<0xff>".toList).bytecode = [0x63, 0x01, 0xff] ∧
      (skipping.left true "<0xff>".toList).main = [.number 1] := by
  have hfeed : skipping.feed false "<OP_NOPE>".toList = .error (.unknownOpcode "OP_NOPE") := by
    decide +kernel
  obtain ⟨-, hrefused, -, -⟩ := feedInPlace_effects skipping "<OP_NOPE>".toList
  obtain ⟨-, -, -, hpushes⟩ := feedInPlace_effects skipping "<0xff>".toList
  exact ⟨(hrefused false _).mp hfeed, hpushes, by decide +kernel, by decide +kernel⟩

end ScriptBench.Machine
