import ScriptBench.Proofs.Conditional.Program
import ScriptBench.Proofs.Machine.Alike
import ScriptBench.Proofs.Machine.Run

/-! The flat machine runs well-nested programs as trees.

A machine is fed the words of a program one by one and knows of its blocks only a
stack of conditions. In a branch that is not run some condition below the innermost
is false, and stays so whatever an inner `OP_ELSE` does to the innermost
(`Program.run_skipped`); where every condition is true, the machine does what the
tree says (`Program.outcome_run`). -/
namespace ScriptBench

/-! ### The words of the conditional structure -/

theorem opcode?_opening (r : RuleSet) (negated : Bool) : ∃ o, r.opcode? (openingWord negated) = some o ∧
    o.word = openingWord negated ∧ o.operation = .branch negated := by
  obtain ⟨network, version⟩ := r
  cases network <;> cases version <;> cases negated <;> exact ⟨_, rfl, rfl, rfl⟩

theorem opcode?_else (r : RuleSet) :
    ∃ o, r.opcode? "OP_ELSE" = some o ∧ o.word = "OP_ELSE" ∧ o.operation = .otherwise := by
  obtain ⟨network, version⟩ := r
  cases network <;> cases version <;> exact ⟨_, rfl, rfl, rfl⟩

theorem opcode?_endif (r : RuleSet) :
    ∃ o, r.opcode? "OP_ENDIF" = some o ∧ o.word = "OP_ENDIF" ∧ o.operation = .endBranch := by
  obtain ⟨network, version⟩ := r
  cases network <;> cases version <;> exact ⟨_, rfl, rfl, rfl⟩

namespace Machine
variable {m : Machine} {d : Data} {conditions : List Bool}

/-- Where a machine stands at data under conditions, it holds no error. -/
theorem error_of_under (h : m.outcome = .ok (d.under conditions)) : m.error = none :=
  (outcome_ok_iff.mp h).1

theorem toStacks_of_under (h : m.outcome = .ok (d.under conditions)) :
    m.toStacks = d.under conditions :=
  (outcome_ok_iff.mp h).2

theorem executing_of_under (h : m.outcome = .ok (d.under conditions)) :
    m.executing = conditions.all id :=
  congrArg Stacks.executing (toStacks_of_under h)

theorem outcome_opening (h : m.outcome = .ok (d.under conditions)) (negated : Bool) :
    (m.call (.word (openingWord negated))).outcome =
      if conditions.all id then
        match d.main with
        | [] => .error (.opcode (openingWord negated) .underflow)
        | e :: main =>
          .ok (Data.under ((e.isTrue != negated) :: conditions) { d with main })
      else .ok (d.under (false :: conditions)) := by
  obtain ⟨o, ho, hword, hop⟩ := opcode?_opening m.rules negated
  rw [outcome_word (error_of_under h) ho (by rw [hop]; rfl), toStacks_of_under h,
    Operation.runInPlace_eq, hop, hword, if_pos (by rfl)]
  -- Whether the condition is popped is read off the conditions around the block.
  have hrun : (Operation.branch negated).run m.template (d.under conditions) =
      (if conditions.all id then (do Action.openBlock ((← Action.pop).isTrue != negated))
        else Action.openBlock false) (d.under conditions) := rfl
  rw [hrun]
  cases conditions.all id with
  | false => rfl
  | true =>
    obtain ⟨main, alt⟩ := d
    cases main <;> rfl

theorem outcome_else {c : Bool} (h : m.outcome = .ok (d.under (c :: conditions))) :
    (m.call (.word "OP_ELSE")).outcome = .ok (d.under ((!c) :: conditions)) := by
  obtain ⟨o, ho, hword, hop⟩ := opcode?_else m.rules
  rw [outcome_word (error_of_under h) ho (by rw [hop]; rfl), toStacks_of_under h,
    Operation.runInPlace_eq, hop, if_pos (by rfl)]
  rfl

theorem outcome_endif {c : Bool} (h : m.outcome = .ok (d.under (c :: conditions))) :
    (m.call (.word "OP_ENDIF")).outcome = .ok (d.under conditions) := by
  obtain ⟨o, ho, hword, hop⟩ := opcode?_endif m.rules
  rw [outcome_word (error_of_under h) ho (by rw [hop]; rfl), toStacks_of_under h,
    Operation.runInPlace_eq, hop, if_pos (by rfl)]
  rfl

end Machine

/-! ### Skipped programs -/

/-- What is left of a machine by a run that is skipped: its data, and unless the run
has a fault, the given conditions. -/
structure Machine.Skipped (m n : Machine) (conditions : List Bool) (fault : Option ScriptError) :
    Prop where
  main : n.main = m.main
  alt : n.alt = m.alt
  error : n.error = fault
  conditions : fault = none → n.conditions = conditions

namespace Machine.Skipped
variable {m n : Machine} {d : Data} {conditions conditions' : List Bool}

/-- A step from and to the same data. -/
theorem of_outcome (h : m.outcome = .ok (d.under conditions))
    (h' : n.outcome = .ok (d.under conditions')) : Skipped m n conditions' none := by
  have hm := toStacks_of_under h
  have hn := toStacks_of_under h'
  refine ⟨?_, ?_, error_of_under h', fun _ => congrArg Stacks.conditions hn⟩
  · exact (congrArg Stacks.main hn).trans (congrArg Stacks.main hm).symm
  · exact (congrArg Stacks.alt hn).trans (congrArg Stacks.alt hm).symm

theorem outcome (hs : Skipped m n conditions' none) (h : m.outcome = .ok (d.under conditions)) :
    n.outcome = .ok (d.under conditions') := by
  have hm := toStacks_of_under h
  have hstacks : n.toStacks = ⟨n.main, n.alt, n.conditions⟩ := rfl
  refine outcome_ok_iff.mpr ⟨hs.error, ?_⟩
  rw [hstacks, hs.main, hs.alt, hs.conditions rfl, show m.main = _ from congrArg Stacks.main hm,
    show m.alt = _ from congrArg Stacks.alt hm]
  rfl

/-- One skipped run after another; the first fault ends both. -/
theorem run_append {a b : List Call} {f g : Option ScriptError}
    (ha : Skipped m (m.run a) conditions f)
    (hb : f = none → Skipped (m.run a) ((m.run a).run b) conditions' g) :
    Skipped m (m.run (a ++ b)) conditions' (f.or g) := by
  rw [Machine.run_append]
  cases f with
  | some e =>
    rw [run_of_error ha.error]
    exact ⟨ha.main, ha.alt, ha.error, nofun⟩
  | none =>
    have h := hb rfl
    exact ⟨h.main.trans ha.main, h.alt.trans ha.alt, h.error, h.conditions⟩

theorem run_cons {c : Call} {b : List Call} {f g : Option ScriptError}
    (ha : Skipped m (m.call c) conditions f)
    (hb : f = none → Skipped (m.call c) ((m.call c).run b) conditions' g) :
    Skipped m (m.run (c :: b)) conditions' (f.or g) :=
  run_append (a := [c]) ha hb

end Machine.Skipped

theorem fault?_opening (r : RuleSet) (negated : Bool) :
    (Call.word (openingWord negated)).fault? r = none := by
  obtain ⟨o, ho, -, hop⟩ := opcode?_opening r negated
  simp only [Call.fault?, ho, hop, Operation.allowed, if_true]

theorem fault?_else (r : RuleSet) : (Call.word "OP_ELSE").fault? r = none := by
  obtain ⟨o, ho, -, hop⟩ := opcode?_else r
  simp only [Call.fault?, ho, hop, Operation.allowed, if_true]

theorem fault?_endif (r : RuleSet) : (Call.word "OP_ENDIF").fault? r = none := by
  obtain ⟨o, ho, -, hop⟩ := opcode?_endif r
  simp only [Call.fault?, ho, hop, Operation.allowed, if_true]

namespace Machine
variable {m : Machine} {d : Data} {conditions : List Bool}

/-- A call outside of the conditional structure, in a branch that is not run. -/
theorem call_skipped (h : m.outcome = .ok (d.under conditions)) (hskip : conditions.all id = false)
    {c : Call} (hc : c.isPlain = true) : Skipped m (m.call c) conditions (c.fault? m.rules) := by
  have hm := error_of_under h
  have hexec : m.executing = false := (executing_of_under h).trans hskip
  have hconditions : m.conditions = conditions := congrArg Stacks.conditions (toStacks_of_under h)
  cases hfault : c.fault? m.rules with
  | some e =>
    obtain ⟨herror, hstacks⟩ := call_fault hm hfault
    exact ⟨congrArg Stacks.main hstacks, congrArg Stacks.alt hstacks, herror, nofun⟩
  | none =>
    obtain ⟨l, e, rfl, hl, hsize⟩ | ⟨w, o, rfl, ho, hallowed⟩ := Call.cases_of_fault?_none hfault
    · rw [call_literal hm hl hsize, hexec]
      exact ⟨rfl, rfl, hm, fun _ => hconditions⟩
    · have hplain := not_isConditional_of_isPlain ho hc
      have hout := outcome_word hm ho hallowed
      rw [Operation.runInPlace_eq, hplain, show m.toStacks.executing = false from hexec,
        if_neg (by decide), toStacks_of_under h] at hout
      exact .of_outcome h hout

end Machine

mutual

-- The induction is on the tree. It is carried by a false condition around the program,
-- which in a block may be its own, and in its branches is one below it.

/-- A program that is not run leaves the data alone, and fails only at a fault. -/
theorem Program.run_skipped : (p : Program) → ∀ {m : Machine} {d : Data} {conditions : List Bool},
    m.outcome = .ok (d.under conditions) → conditions.all id = false →
    m.Skipped (m.run p.calls) conditions (faultOf? m.rules p.calls)
  | .done, _, _, _, h, _ => .of_outcome h h
  | .call c plain rest, m, d, conditions, h, hskip => by
    have hc := Machine.call_skipped h hskip plain
    rw [Program.calls, faultOf?_cons]
    refine hc.run_cons fun hnone => ?_
    rw [hnone] at hc
    simpa only [Machine.call_rules] using rest.run_skipped (hc.outcome h) hskip
  | .block negated branches rest, m, d, conditions, h, hskip => by
    have hopen := Machine.outcome_opening h negated
    rw [hskip, if_neg (by decide)] at hopen
    rw [Program.calls, faultOf?_cons, fault?_opening]
    refine (Machine.Skipped.of_outcome h hopen).run_cons fun _ => ?_
    have hb := branches.run_skipped hopen hskip
    rw [Machine.call_rules] at hb
    rw [faultOf?_append]
    refine hb.run_append fun hnone => ?_
    rw [hnone] at hb
    simpa only [Machine.run_rules, Machine.call_rules] using
      rest.run_skipped (hb.outcome hopen) hskip

/-- So do the branches of a block, whatever its own condition. -/
theorem Branches.run_skipped : (b : Branches) →
    ∀ {m : Machine} {d : Data} {condition : Bool} {outer : List Bool},
    m.outcome = .ok (d.under (condition :: outer)) → outer.all id = false →
    m.Skipped (m.run b.calls) outer (faultOf? m.rules b.calls)
  | .last branch, m, d, condition, outer, h, hskip => by
    have hb := branch.run_skipped h (by simp [hskip])
    rw [Branches.calls, faultOf?_append, faultOf?_cons, fault?_endif]
    refine hb.run_append fun hnone => ?_
    rw [hnone] at hb
    exact .of_outcome (hb.outcome h) (Machine.outcome_endif (hb.outcome h))
  | .turn branch rest, m, d, condition, outer, h, hskip => by
    have hb := branch.run_skipped h (by simp [hskip])
    rw [Branches.calls, faultOf?_append, faultOf?_cons, fault?_else]
    refine hb.run_append fun hnone => ?_
    rw [hnone] at hb
    -- The innermost condition turns; one of those below it is false and does not.
    have helse := Machine.outcome_else (hb.outcome h)
    refine (Machine.Skipped.of_outcome (hb.outcome h) helse).run_cons fun _ => ?_
    simpa only [Machine.run_rules, Machine.call_rules] using rest.run_skipped helse hskip

end

/-! ### Programs that are run -/

namespace Machine
variable {m : Machine} {d : Data} {conditions conditions' : List Bool}

/-- An operation outside of the conditional structure neither reads nor changes the conditions. -/
theorem run_under (t : Option Template) {op : Operation} (hop : op.isConditional = false) (d : Data)
    (conditions : List Bool) :
    (∃ s, op.run t (d.under []) = .ok () s ∧
      op.run t (d.under conditions) = .ok () (Data.under conditions ⟨s.main, s.alt⟩)) ∨
    (∃ fault s s', op.run t (d.under []) = .error fault s ∧
      op.run t (d.under conditions) = .error fault s') := by
  have hstart : Stacks.Alike Eq conditions [] (d.under conditions) (d.under []) :=
    ⟨List.forall₂_eq_eq_eq ▸ rfl, List.forall₂_eq_eq_eq ▸ rfl, rfl, rfl⟩
  have h := (Stacks.Alike.respected (congrArg Element.bytes) fun _ _ => rfl).run t op hop
    (fun _ => Stacks.Alike.related_depth) _ _ hstart
  generalize op.run t (d.under conditions) = x at h ⊢
  generalize op.run t (d.under []) = y at h ⊢
  cases h with
  | excused h => exact h.elim
  | error h => exact .inr ⟨_, _, _, rfl, rfl⟩
  | @ok _ _ s s' _ h =>
    obtain ⟨hmain, halt, hleft, -⟩ := h
    rw [List.forall₂_eq_eq_eq] at hmain halt
    refine .inl ⟨s', rfl, ?_⟩
    rw [← hmain, ← halt, ← hleft]
    rfl

/-- A call outside of the conditional structure, where every branch around it is run. -/
theorem outcome_plain (h : m.outcome = .ok (d.under conditions)) (hrun : conditions.all id = true)
    {c : Call} (hc : c.isPlain = true) :
    (m.call c).outcome = (c.evaluate m.rules m.template d).map (Data.under conditions) := by
  have hm := error_of_under h
  have hexec : m.executing = true := (executing_of_under h).trans hrun
  cases hfault : c.fault? m.rules with
  | some e =>
    rw [Call.evaluate_fault hfault]
    exact outcome_error_iff.mpr (call_fault hm hfault).1
  | none =>
    obtain ⟨l, e, rfl, hl, hsize⟩ | ⟨w, o, rfl, ho, hallowed⟩ := Call.cases_of_fault?_none hfault
    · rw [call_literal hm hl hsize, hexec]
      simp only [Call.evaluate, hl, if_pos hsize]
      refine outcome_ok_iff.mpr ⟨hm, ?_⟩
      have hstacks := toStacks_of_under h
      show (⟨e :: m.toStacks.main, m.toStacks.alt, m.toStacks.conditions⟩ : Stacks) = _
      rw [hstacks]
      rfl
    · have hplain := not_isConditional_of_isPlain ho hc
      rw [outcome_word hm ho hallowed, Operation.runInPlace_eq, hplain,
        show m.toStacks.executing = true from hexec, if_pos (by decide), toStacks_of_under h]
      simp only [Call.evaluate, ho, if_pos hallowed]
      rcases run_under m.template hplain d conditions with
        ⟨s, hs, hs'⟩ | ⟨fault, s, s', hs, hs'⟩
      · rw [hs, hs']
        rfl
      · rw [hs, hs']
        rfl

/-- The second part of a run begins where the first ends, if it ends without an error. -/
theorem outcome_run_append {a b : List Call} {x : Except ScriptError Data}
    {f : Data → Except ScriptError Data} (ha : (m.run a).outcome = x.map (Data.under conditions))
    (hb : ∀ d, (m.run a).outcome = .ok (d.under conditions) →
      ((m.run a).run b).outcome = (f d).map (Data.under conditions')) :
    (m.run (a ++ b)).outcome = (x >>= f).map (Data.under conditions') := by
  rw [run_append]
  cases x with
  | error e =>
    rw [run_of_error (outcome_error_iff.mp ha), ha]
    rfl
  | ok d => exact hb d ha

theorem outcome_skip (h : m.outcome = .ok (d.under conditions)) (hskip : conditions.all id = false)
    (p : Program) :
    (m.run p.calls).outcome = (p.skip m.rules d).map (Data.under conditions) := by
  have hs := p.run_skipped h hskip
  unfold Program.skip
  cases hf : faultOf? m.rules p.calls with
  | none =>
    rw [hf] at hs
    exact hs.outcome h
  | some e =>
    rw [hf] at hs
    exact outcome_error_iff.mpr hs.error

/-- A branch whose turn it is, is run; any other is skipped. -/
theorem outcome_branch {turn : Bool} (h : m.outcome = .ok (d.under (turn :: conditions)))
    (p : Program) (hp : turn = true → (m.run p.calls).outcome =
      (p.evaluate m.rules m.template d).map (Data.under (turn :: conditions))) :
    (m.run p.calls).outcome =
      (if turn then p.evaluate m.rules m.template d else p.skip m.rules d).map
        (Data.under (turn :: conditions)) := by
  cases turn with
  | true => exact hp rfl
  | false => exact outcome_skip h rfl p

end Machine

mutual

/-- **Where every branch around it is run, the flat machine does what the tree says.** -/
theorem Program.outcome_run : (p : Program) → ∀ {m : Machine} {d : Data} {conditions : List Bool},
    m.outcome = .ok (d.under conditions) → conditions.all id = true →
    (m.run p.calls).outcome =
      (p.evaluate m.rules m.template d).map (Data.under conditions)
  | .done, _, _, _, h, _ => h
  | .call c plain rest, m, d, conditions, h, hrun => by
    have hc := Machine.outcome_plain h hrun plain
    rw [Program.calls, ← List.singleton_append, Program.evaluate]
    refine Machine.outcome_run_append hc fun d' h' => ?_
    simpa only [Machine.run_rules, Machine.run_template] using rest.outcome_run h' hrun
  | .block negated branches rest, m, d, conditions, h, hrun => by
    have hopen := Machine.outcome_opening h negated
    rw [hrun, if_pos rfl] at hopen
    rw [Program.calls, Program.evaluate]
    cases hmain : d.main with
    | nil =>
      rw [hmain] at hopen
      rw [Machine.run_cons, Machine.run_of_error (Machine.outcome_error_iff.mp hopen), hopen]
      rfl
    | cons e main =>
      simp only [hmain] at hopen
      rw [← Branches.taken_zero (e.isTrue != negated)] at hopen
      have hb := branches.outcome_run hopen hrun
      rw [Machine.call_rules, Machine.call_template] at hb
      rw [Machine.run_cons]
      refine Machine.outcome_run_append hb fun d' h' => ?_
      simpa only [Machine.run_rules, Machine.run_template, Machine.call_rules,
        Machine.call_template] using rest.outcome_run h' hrun

/-- Of a block's branches those are run whose turn it is, whatever they hold. -/
theorem Branches.outcome_run : (b : Branches) →
    ∀ {m : Machine} {d : Data} {condition : Bool} {i : Nat} {outer : List Bool},
    m.outcome = .ok (d.under (Branches.taken condition i :: outer)) → outer.all id = true →
    (m.run b.calls).outcome =
      (b.evaluate m.rules m.template condition i d).map (Data.under outer)
  | .last branch, m, d, condition, i, outer, h, hrun => by
    have hb := Machine.outcome_branch h branch fun hturn =>
      branch.outcome_run h (by rw [List.all_cons, hturn, hrun]; rfl)
    rw [Branches.calls, Branches.evaluate, ← bind_pure (ite ..)]
    exact Machine.outcome_run_append hb fun d' h' => Machine.outcome_endif h'
  | .turn branch rest, m, d, condition, i, outer, h, hrun => by
    have hb := Machine.outcome_branch h branch fun hturn =>
      branch.outcome_run h (by rw [List.all_cons, hturn, hrun]; rfl)
    rw [Branches.calls, Branches.evaluate]
    refine Machine.outcome_run_append hb fun d' h' => ?_
    have helse := Machine.outcome_else h'
    rw [← Branches.taken_succ] at helse
    rw [Machine.run_cons]
    simpa only [Machine.run_rules, Machine.run_template, Machine.call_rules,
      Machine.call_template] using rest.outcome_run helse hrun

end

/-- The data of a machine. -/
def Machine.data (m : Machine) : Data := ⟨m.main, m.alt⟩

theorem Machine.outcome_data {m : Machine} (hm : m.error = none) :
    m.outcome = .ok (m.data.under m.conditions) :=
  outcome_ok_iff.mpr ⟨hm, rfl⟩

/-- **A flat run of a well-nested program is its structured evaluation.** Where branches
are run, it ends with the same first error, or with the same data under the conditions
it began with. Where they are not, it leaves the data alone and fails only at a call
that is faulty under the rule set. -/
theorem Machine.run_structured (p : Program) (m : Machine) (hm : m.error = none) :
    (m.executing = true →
      (m.run p.calls).outcome =
        (p.evaluate m.rules m.template m.data).map (Data.under m.conditions)) ∧
    (m.executing = false →
      (m.run p.calls).main = m.main ∧ (m.run p.calls).alt = m.alt ∧
      ((m.run p.calls).error = none → (m.run p.calls).conditions = m.conditions) ∧
      ∀ e, (m.run p.calls).error = some e → ∃ c ∈ p.calls, c.Faulty m.rules e) := by
  refine ⟨p.outcome_run (outcome_data hm), fun hskip => ?_⟩
  have hs := p.run_skipped (outcome_data hm) hskip
  refine ⟨hs.main, hs.alt, fun hnone => hs.conditions (hs.error ▸ hnone), fun e he => ?_⟩
  exact exists_faulty_of_faultOf? (hs.error ▸ he)

/-- A program of one hexadecimal literal. -/
def Program.pushing (digits : Text) : Program := .call (.push (.hex digits)) rfl .done

/-- `OP_IF <0x01> OP_ELSE OP_NOTIF <0x02> OP_ELSE OP_ELSE <0x03> OP_ENDIF OP_ELSE <0x04> OP_ENDIF`. -/
def Program.nested : Program :=
  .block false
    (.turn (.pushing ['0', '1'])
      (.turn
        (.block true
          (.turn (.pushing ['0', '2']) (.turn .done (.last (.pushing ['0', '3'])))) .done)
        (.last (.pushing ['0', '4']))))
    .done

theorem Machine.run_structured_nested :
    ({ Machine.new .standard with main := [.raw [1]] }.run Program.nested.calls).outcome =
        .ok ⟨[.raw [4], .raw [1]], [], []⟩ ∧
      ({ Machine.new .standard with conditions := [false] }.run Program.nested.calls).main = [] :=
  ⟨((Machine.run_structured Program.nested _ rfl).1 rfl).trans (by decide +kernel),
    ((Machine.run_structured Program.nested _ rfl).2 rfl).1⟩

end ScriptBench
