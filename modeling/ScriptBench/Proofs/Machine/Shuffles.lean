import ScriptBench.Proofs.Machine.Outcomes

/-! Shuffles as programs of more general opcodes.

`OP_PICK` and `OP_ROLL` reach to a depth that is read off the stack, and the other opcodes that
rearrange the top of the stack do what these do with fixed depths, or what simpler ones do one
after another (`Move.generic`). Each step of such a program is a partial function on the main
stack alone, so the two are compared there, and the machine follows. -/
namespace ScriptBench

namespace Move

/-- The word of the opcode that makes a rearrangement. -/
def word : Move → String
  | drop => "OP_DROP"
  | drop2 => "OP_2DROP"
  | dup => "OP_DUP"
  | dup2 => "OP_2DUP"
  | dup3 => "OP_3DUP"
  | nip => "OP_NIP"
  | over1 => "OP_OVER"
  | over2 => "OP_2OVER"
  | rot => "OP_ROT"
  | rot2 => "OP_2ROT"
  | swap => "OP_SWAP"
  | swap2 => "OP_2SWAP"
  | tuck => "OP_TUCK"

/-- How many elements a rearrangement needs. -/
def depth : Move → Nat
  | drop | dup => 1
  | drop2 | dup2 | nip | over1 | swap | tuck => 2
  | dup3 | rot => 3
  | over2 | swap2 => 4
  | rot2 => 6

theorem isSome_rearranged?_iff {α : Type} (mv : Move) (main : List α) :
    (mv.rearranged? main).isSome = true ↔ mv.depth ≤ main.length := by
  cases mv <;>
    rcases main with _ | ⟨_, _ | ⟨_, _ | ⟨_, _ | ⟨_, _ | ⟨_, _ | ⟨_, main⟩⟩⟩⟩⟩⟩ <;>
    simp [rearranged?, depth]

/-- Every rule set knows the rearrangements. -/
theorem exists_known (mv : Move) (r : RuleSet) :
    ∃ o ∈ r.known, o.word = mv.word ∧ o.operation = .move mv := by
  have htable : ∃ o ∈ opcodes, o.scope = .everywhere ∧ o.word = mv.word ∧
      o.operation = .move mv := by
    cases mv <;> decide +kernel
  obtain ⟨o, ho, hscope, hword, hoperation⟩ := htable
  exact ⟨o, RuleSet.mem_known_of_everywhere ho hscope, hword, hoperation⟩

end Move

/-! ### Generic programs -/

/-- A step of a generic program: an opcode of fixed depth, or one that copies or moves the element
so many places below the top. -/
inductive Shuffle where
  | move (mv : Move)
  | pick (n : Nat)
  | roll (n : Nat)

namespace Shuffle

def calls : Shuffle → List Call
  | move mv => [.word mv.word]
  | pick n => [.push (.number n), .word "OP_PICK"]
  | roll n => [.push (.number n), .word "OP_ROLL"]

/-- The main stack after a step, if it is deep enough. -/
def result? {α : Type} (main : List α) : Shuffle → Option (List α)
  | move mv => mv.rearranged? main
  | pick n => main[n]?.map (· :: main)
  | roll n => main[n]?.map (· :: main.eraseIdx n)

/-- The depth is a number that opcodes can read. -/
def InReach : Shuffle → Prop
  | move _ => True
  | pick n | roll n => n < 2 ^ 31

end Shuffle

/-- The generic program of a rearrangement. -/
def Move.generic : Move → List Shuffle
  | drop => [.move .drop]
  | drop2 => [.move .drop, .move .drop]
  | dup => [.pick 0]
  | dup2 => [.move .over1, .move .over1]
  | dup3 => [.pick 2, .pick 2, .pick 2]
  | nip => [.move .swap, .move .drop]
  | over1 => [.pick 1]
  | over2 => [.pick 3, .pick 3]
  | rot => [.roll 2]
  | rot2 => [.roll 5, .roll 5]
  | swap => [.roll 1]
  | swap2 => [.roll 3, .roll 3]
  | tuck => [.move .swap, .move .over1]

/-- On the main stack alone a rearrangement is its generic program. -/
theorem Move.foldlM_generic {α : Type} (mv : Move) (main : List α) :
    mv.generic.foldlM Shuffle.result? main = mv.rearranged? main := by
  cases mv <;>
    rcases main with _ | ⟨_, _ | ⟨_, _ | ⟨_, _ | ⟨_, _ | ⟨_, _ | ⟨_, main⟩⟩⟩⟩⟩⟩ <;>
    rfl

theorem Move.inReach_generic (mv : Move) : ∀ step ∈ mv.generic, step.InReach := by
  cases mv <;> simp [generic, Shuffle.InReach]

/-- The element at a depth that is no negative number. -/
theorem Action.pick_natCast (remove : Bool) (n : Nat) (s : Stacks) :
    pick remove n s =
      match s.main[n]? with
      | none => .error (.operand (.stackIndex n s.main.length)) s
      | some e => .ok e (if remove then { s with main := s.main.eraseIdx n } else s) := by
  unfold pick
  exact if_neg (Int.not_lt.mpr (Int.natCast_nonneg n))

/-- An element copied or moved from a depth that has just been pushed. -/
theorem Operation.run_pick (t : Option Template) (remove : Bool) {n : Nat} (hn : n < 2 ^ 31)
    (main alt : List Element) (conditions : List Bool) :
    (pick remove).run t ⟨.number n :: main, alt, conditions⟩ =
      match main[n]? with
      | none => .error (.operand (.stackIndex n main.length)) ⟨main, alt, conditions⟩
      | some e => .ok () ⟨e :: if remove then main.eraseIdx n else main, alt, conditions⟩ := by
  have hpop := Action.popNumber_number (n := n) hn main alt conditions
  refine (Action.bind_ok hpop).trans ?_
  have hpick := Action.pick_natCast remove n ⟨main, alt, conditions⟩
  cases he : main[n]? with
  | none =>
    simp only [he] at hpick
    exact Action.bind_error hpick
  | some e =>
    simp only [he] at hpick
    refine (Action.bind_ok hpick).trans ?_
    cases remove <;> rfl

namespace Machine
variable {m : Machine} {s : Stacks}

/-- The stacks of a machine that has no error. -/
def stacks? (m : Machine) : Option Stacks := m.outcome.toOption

theorem stacks?_of_ok (h : m.outcome = .ok s) : m.stacks? = some s := by
  rw [stacks?, h]
  rfl

theorem stacks?_of_error {e : ScriptError} (h : m.outcome = .error e) : m.stacks? = none := by
  rw [stacks?, h]
  rfl

theorem stacks?_eq_some_iff : m.stacks? = some s ↔ m.outcome = .ok s := by
  unfold stacks?
  cases m.outcome <;> simp [Except.toOption]

theorem stacks?_eq_none_iff : m.stacks? = none ↔ m.error ≠ none := by
  unfold stacks? outcome
  cases m.error <;> simp [Except.toOption]

theorem stacks?_known (h : m.outcome = .ok s) (hexecuting : s.executing = true) {o : Opcode}
    (ho : o ∈ m.rules.known) (hallowed : o.operation.allowed m.rules = true) :
    (m.call (.word o.word)).stacks? =
      match o.operation.run m.template s with
      | .ok _ s' => some s'
      | .error _ _ => none := by
  cases hrun : o.operation.run m.template s with
  | ok u s' => exact stacks?_of_ok (outcome_ok h hexecuting ho hallowed hrun)
  | error fault s' => exact stacks?_of_error (outcome_error h hexecuting ho hallowed hrun)

/-- A rearrangement as a call. -/
theorem stacks?_move (h : m.outcome = .ok s) (hexecuting : s.executing = true) (mv : Move) :
    (m.call (.word mv.word)).stacks? =
      (mv.rearranged? s.main).map fun main => { s with main } := by
  obtain ⟨o, ho, hword, hoperation⟩ := mv.exists_known m.rules
  have hrun : o.operation.run m.template s = Action.rearrange mv s := by rw [hoperation]; rfl
  rw [← hword, stacks?_known h hexecuting ho (by rw [hoperation]; rfl), hrun]
  unfold Action.rearrange
  cases mv.rearranged? s.main <;> rfl

/-- An element copied or moved from a depth that is pushed first. -/
theorem stacks?_pick (h : m.outcome = .ok s) (hexecuting : s.executing = true) {o : Opcode}
    (ho : o ∈ m.rules.known) {remove : Bool} (hoperation : o.operation = .pick remove) {n : Nat}
    (hn : n < 2 ^ 31) :
    (m.run [.push (.number n), .word o.word]).stacks? =
      s.main[n]?.map fun e =>
        { s with main := e :: if remove then s.main.eraseIdx n else s.main } := by
  have hpush := outcome_number h hexecuting (n := n) hn
  rw [← call_rules m (.push (.number n))] at ho
  have hrun := Operation.run_pick m.template remove hn s.main s.alt s.conditions
  rw [← hoperation, ← call_template m (.push (.number n))] at hrun
  show ((m.call (.push (.number n))).call (.word o.word)).stacks? = _
  rw [stacks?_known hpush hexecuting ho (by rw [hoperation]; rfl), hrun]
  cases s.main[n]? <;> rfl

/-- A step of a generic program. -/
theorem stacks?_step (h : m.outcome = .ok s) (hexecuting : s.executing = true) {step : Shuffle}
    (hstep : step.InReach) :
    (m.run step.calls).stacks? = (step.result? s.main).map fun main => { s with main } := by
  cases step with
  | move mv => exact stacks?_move h hexecuting mv
  | pick n =>
    have hknown : _ ∈ m.rules.known := RuleSet.known_of_find? (b := 0x79) rfl rfl
    refine (stacks?_pick h hexecuting hknown rfl hstep).trans ?_
    rw [Shuffle.result?, Option.map_map]
    rfl
  | roll n =>
    have hknown : _ ∈ m.rules.known := RuleSet.known_of_find? (b := 0x7a) rfl rfl
    refine (stacks?_pick h hexecuting hknown rfl hstep).trans ?_
    rw [Shuffle.result?, Option.map_map]
    rfl

/-- A generic program does on the main stack what its steps do one after another. -/
theorem stacks?_steps (h : m.outcome = .ok s) (hexecuting : s.executing = true)
    {steps : List Shuffle} (hsteps : ∀ step ∈ steps, step.InReach) :
    (m.run (steps.flatMap Shuffle.calls)).stacks? =
      (steps.foldlM Shuffle.result? s.main).map fun main => { s with main } := by
  induction steps generalizing m s with
  | nil => exact stacks?_of_ok h
  | cons step rest ih =>
    obtain ⟨hstep, hrest⟩ := List.forall_mem_cons.mp hsteps
    have hfirst := stacks?_step h hexecuting hstep
    rw [List.flatMap_cons, run_append, List.foldlM_cons]
    cases hresult : step.result? s.main with
    | none =>
      rw [hresult] at hfirst
      obtain ⟨e, he⟩ := Option.ne_none_iff_exists'.mp (stacks?_eq_none_iff.mp hfirst)
      rw [run_of_error he]
      exact hfirst
    | some main =>
      rw [hresult] at hfirst
      exact ih (stacks?_eq_some_iff.mp hfirst) hexecuting hrest

/-- **Every opcode that rearranges the stack does what its generic program does.** Both end with
the same stacks, or both with an error; and they succeed just when the stack is deep enough. -/
theorem move_generic (h : m.error = none) (hexecuting : m.executing = true) (mv : Move) :
    (m.run (mv.generic.flatMap Shuffle.calls)).stacks? = (m.call (.word mv.word)).stacks? ∧
    ((m.call (.word mv.word)).stacks?.isSome = true ↔ mv.depth ≤ m.main.length) := by
  have hs : m.outcome = .ok m.toStacks := outcome_ok_iff.mpr ⟨h, rfl⟩
  have hmove := stacks?_move hs hexecuting mv
  have hsteps := stacks?_steps hs hexecuting mv.inReach_generic
  rw [mv.foldlM_generic, ← hmove] at hsteps
  refine ⟨hsteps, ?_⟩
  rw [hmove, Option.isSome_map]
  exact mv.isSome_rearranged?_iff m.main

/-- The deepest rearrangement on six elements, and on one too few. -/
theorem move_generic_sixElements :
    let six : List Element := [.number 6, .text ['5'], .raw [4], .number 3, .text ['2'], .raw [1]]
    let m : Machine := { new .standard with main := six }
    let m' : Machine := { new .standard with main := six.tail }
    m.error = none ∧ m.executing = true ∧ m'.error = none ∧ m'.executing = true ∧
    Move.rot2.generic.flatMap Shuffle.calls =
      [.push (.number 5), .word "OP_ROLL", .push (.number 5), .word "OP_ROLL"] ∧
    (m.run (Move.rot2.generic.flatMap Shuffle.calls)).stacks? = (m.call (.word "OP_2ROT")).stacks? ∧
    (m.call (.word "OP_2ROT")).stacks?.isSome = true ∧
    (m'.run (Move.rot2.generic.flatMap Shuffle.calls)).stacks? = none := by
  intro six m m'
  obtain ⟨hsame, hdeep⟩ := move_generic (m := m) rfl rfl .rot2
  obtain ⟨hsame', hdeep'⟩ := move_generic (m := m') rfl rfl .rot2
  have hshort : (m'.call (.word "OP_2ROT")).stacks? = none :=
    Option.not_isSome_iff_eq_none.mp (hdeep'.not.mpr (by decide))
  exact ⟨rfl, rfl, rfl, rfl, rfl, hsame, hdeep.mpr (by decide), hsame'.trans hshort⟩

end Machine

end ScriptBench
