import ScriptBench.Machine.Execute

/-! Two actions side by side.

`Related` says that two actions, begun on stacks related by `R`, do the same: both
return values related by `A`, or both fail for the same reason, and the stacks they
leave are related again. When `lenient` holds, nothing is asked of the second where
the first fails. `Respected` is what a relation has to satisfy on the few actions
that touch the stacks; the rest is put together from these, and so
`Respected.run` needs to be proved only once: every operation outside of the
conditional structure respects every such relation. -/
namespace ScriptBench.Action

/-- Two results that agree. -/
inductive Agrees {α β : Type} (lenient : Prop) (R : Stacks → Stacks → Prop) (A : α → β → Prop) :
    EStateM.Result Fault Stacks α → EStateM.Result Fault Stacks β → Prop where
  | ok {a b s t} : A a b → R s t → Agrees lenient R A (.ok a s) (.ok b t)
  | error {f s t} : R s t → Agrees lenient R A (.error f s) (.error f t)
  | excused {f s y} : lenient → Agrees lenient R A (.error f s) y

/-- From related stacks, results that agree. -/
def Related {α β : Type} (lenient : Prop) (R : Stacks → Stacks → Prop) (A : α → β → Prop)
    (x : Action α) (y : Action β) : Prop :=
  ∀ s t, R s t → Agrees lenient R A (x s) (y t)

section
variable {α β γ δ : Type} {lenient : Prop} {R : Stacks → Stacks → Prop}

namespace Related

theorem pure {A : α → β → Prop} {a : α} {b : β} (h : A a b) :
    Related lenient R A (Pure.pure a) (Pure.pure b) :=
  fun _ _ hr => .ok h hr

theorem throw {A : α → β → Prop} (f : Fault) :
    Related lenient R A (MonadExcept.throw f) (MonadExcept.throw f) :=
  fun _ _ hr => .error hr

theorem refuse {A : α → β → Prop} (why : OperandFault) :
    Related lenient R A (Action.refuse why) (Action.refuse why) :=
  throw _

theorem bind {A : α → β → Prop} {B : γ → δ → Prop} {x : Action α} {y : Action β}
    {f : α → Action γ} {g : β → Action δ} (hx : Related lenient R A x y)
    (hf : ∀ a b, A a b → Related lenient R B (f a) (g b)) :
    Related lenient R B (x >>= f) (y >>= g) := by
  intro s t hr
  show Agrees lenient R B (EStateM.bind x f s) (EStateM.bind y g t)
  unfold EStateM.bind
  have h := hx s t hr
  generalize x s = r at h ⊢
  generalize y t = r' at h ⊢
  cases h with
  | ok ha hr => exact hf _ _ ha _ _ hr
  | error hr => exact .error hr
  | excused hl => exact .excused hl

/-- The same value, read the same way by what follows. -/
theorem bind_eq {B : γ → δ → Prop} {x y : Action α} {f : α → Action γ} {g : α → Action δ}
    (hx : Related lenient R Eq x y) (hf : ∀ a, Related lenient R B (f a) (g a)) :
    Related lenient R B (x >>= f) (y >>= g) :=
  hx.bind fun _ _ h => h ▸ hf _

theorem ite {A : α → β → Prop} {c : Prop} [Decidable c] {x x' : Action α} {y y' : Action β}
    (h : c → Related lenient R A x y) (h' : ¬ c → Related lenient R A x' y') :
    Related lenient R A (if c then x else x') (if c then y else y') := by
  by_cases hc : c
  · simpa only [if_pos hc] using h hc
  · simpa only [if_neg hc] using h' hc

end Related

end

/-! ### Relations that actions respect -/

/-- What a relation on stacks, over a relation on elements that keeps their bytes,
satisfies for all actions on the stacks to respect it. -/
structure Respected (lenient : Prop) (R : Stacks → Stacks → Prop) (E : Element → Element → Prop) :
    Prop where
  bytes : ∀ {a b}, E a b → a.bytes = b.bytes
  /-- Operations make numbers and byte strings; texts they only move. -/
  refl : ∀ a, a.text? = none → E a a
  push : ∀ {a b}, E a b → Related lenient R Eq (push a) (push b)
  pop : Related lenient R E pop pop
  top : Related lenient R E top top
  pick : ∀ remove n, Related lenient R E (pick remove n) (pick remove n)
  rearrange : ∀ m, Related lenient R Eq (rearrange m) (rearrange m)
  toAlt : ∀ {a b}, E a b → Related lenient R Eq (toAlt a) (toAlt b)
  fromAlt : Related lenient R E fromAlt fromAlt

namespace Respected
variable {lenient : Prop} {R : Stacks → Stacks → Prop} {E : Element → Element → Prop}
  (H : Respected lenient R E) {a b : Element}
include H

theorem size (h : E a b) : a.size = b.size := congrArg List.length (H.bytes h)

theorem isTrue (h : E a b) : a.isTrue = b.isTrue := congrArg Number.isTrue (H.bytes h)

theorem push_self {e : Element} (h : e.text? = none) :
    Related lenient R Eq (Action.push e) (Action.push e) :=
  H.push (H.refl e h)

theorem pushNumber (n : Int) : Related lenient R Eq (pushNumber n) (pushNumber n) :=
  H.push_self rfl

theorem pushBool (c : Bool) : Related lenient R Eq (pushBool c) (pushBool c) := H.push_self rfl

theorem pushBytes (d : Bytes) : Related lenient R Eq (pushBytes d) (pushBytes d) :=
  H.push_self rfl

theorem readNumber (limit : Nat) (h : E a b) :
    Related lenient R Eq (readNumber limit a) (readNumber limit b) := by
  unfold Action.readNumber
  rw [H.bytes h, H.size h]
  split
  · exact .pure rfl
  · exact .throw _

theorem popNumber : Related lenient R Eq popNumber popNumber :=
  H.pop.bind fun _ _ h => H.readNumber _ h

theorem popIndex : Related lenient R Eq popIndex popIndex :=
  H.popNumber.bind_eq fun _ => .ite (fun _ => .refuse _) (fun _ => .pure rfl)

theorem popWord : Related lenient R Eq popWord popWord := by
  refine H.pop.bind fun a b h => ?_
  rw [H.bytes h, H.size h]
  split
  · exact .pure rfl
  · exact .refuse _

/-- Two elements popped, the top one first. -/
theorem popTwo {f g : Element → Element → Action Unit}
    (hf : ∀ b b' a a', E b b' → E a a' → Related lenient R Eq (f b a) (g b' a')) :
    Related lenient R Eq (do let b ← Action.pop; let a ← Action.pop; f b a)
      (do let b ← Action.pop; let a ← Action.pop; g b a) :=
  H.pop.bind fun b b' hb => H.pop.bind fun a a' ha => hf b b' a a' hb ha

theorem pushChecked (n : Int) : Related lenient R Eq (pushChecked n) (pushChecked n) :=
  .ite (fun _ => (H.pushBytes _).bind_eq fun _ => H.pushBool _) (fun _ => H.pushBool _)

theorem pushJoined (d : Bytes) : Related lenient R Eq (pushJoined d) (pushJoined d) :=
  .ite (fun _ => H.pushBytes _) (fun _ => .throw _)

omit H in
theorem verify (c : Bool) : Related lenient R Eq (Action.verify c) (Action.verify c) :=
  .ite (fun _ => .pure rfl) (fun _ => .throw _)

omit H in
theorem required (t : Option Template) : Related lenient R Eq (required t) (required t) := by
  cases t with
  | none => exact .throw _
  | some t => exact .pure rfl

/-! ### Operations -/

theorem lockOperand : Related lenient R Eq LockTime.operand LockTime.operand :=
  H.top.bind fun _ _ h => H.readNumber _ h

theorem checkAbsolute (t : Option Template) :
    Related lenient R Eq (LockTime.checkAbsolute t) (LockTime.checkAbsolute t) := by
  refine (required t).bind_eq fun tx => H.lockOperand.bind_eq fun lock => ?_
  refine .ite (fun _ => .refuse _) (fun _ => ?_)
  split
  · exact .throw _
  · exact .pure rfl

theorem checkRelative (t : Option Template) :
    Related lenient R Eq (LockTime.checkRelative t) (LockTime.checkRelative t) := by
  refine (required t).bind_eq fun tx => H.lockOperand.bind_eq fun lock => ?_
  refine .ite (fun _ => .refuse _) (fun _ => ?_)
  split
  · exact .throw _
  · exact .pure rfl

theorem amount (index : Nat) (n : Option UInt64) :
    Related lenient R Eq (Inspection.run.amount index n) (Inspection.run.amount index n) := by
  cases n with
  | none => exact .refuse _
  | some n => exact (H.pushBytes _).bind_eq fun _ => H.pushBytes _

theorem inspect (t : Option Template) (i : Inspection) :
    Related lenient R Eq (i.run t) (i.run t) := by
  cases i with
  | currentInput => exact (required t).bind_eq fun _ => H.pushNumber _
  | inputValue =>
    exact H.popIndex.bind_eq fun index => (required t).bind_eq fun _ => H.amount index _
  | outputValue =>
    exact H.popIndex.bind_eq fun index => (required t).bind_eq fun _ => H.amount index _
  | inputSequence =>
    refine H.popIndex.bind_eq fun index => (required t).bind_eq fun _ => ?_
    split
    · exact H.pushBytes _
    · exact .refuse _
  | version => exact (required t).bind_eq fun _ => H.pushBytes _
  | lockTime => exact (required t).bind_eq fun _ => H.pushBytes _
  | inputCount => exact (required t).bind_eq fun _ => H.pushNumber _
  | outputCount => exact (required t).bind_eq fun _ => H.pushNumber _

theorem slice : Related lenient R Eq Operation.runSlice Operation.runSlice := by
  refine H.popIndex.bind_eq fun size => H.popIndex.bind_eq fun start => H.pop.bind fun a b h => ?_
  rw [H.bytes h, H.size h]
  exact .ite (fun _ => H.pushBytes _) (fun _ => .refuse _)

theorem keep (fromEnd : Bool) :
    Related lenient R Eq (Operation.runKeep fromEnd) (Operation.runKeep fromEnd) := by
  refine H.popIndex.bind_eq fun size => H.pop.bind fun a b h => ?_
  rw [H.bytes h, H.size h]
  exact H.pushBytes _

theorem bitwise (op : Bitwise) :
    Related lenient R Eq (Operation.runBitwise op) (Operation.runBitwise op) := by
  refine H.popTwo fun b b' a a' hb ha => ?_
  rw [H.bytes ha, H.bytes hb, H.size ha, H.size hb]
  exact .ite (fun _ => H.pushBytes _) (fun _ => .refuse _)

theorem divide : Related lenient R Eq Operation.runDivide Operation.runDivide := by
  refine H.popWord.bind_eq fun b => H.popWord.bind_eq fun a => ?_
  refine .ite (fun _ => H.pushBool _) (fun _ => ?_)
  exact (H.pushBytes _).bind_eq fun _ => (H.pushBytes _).bind_eq fun _ => H.pushBool _

/-- **Every operation outside of the conditional structure respects the relation.**
The depth of the stack is the one thing an operation reads that is not an element. -/
theorem run (t : Option Template) (op : Operation) (hop : op.isConditional = false)
    (hdepth : op = .depth → Related lenient R Eq Action.depth Action.depth) :
    Related lenient R Eq (op.run t) (op.run t) := by
  cases op with
  | constant n => exact H.pushNumber n
  | pushData => exact .refuse _
  | skip => exact .pure rfl
  | branch negated => cases hop
  | otherwise => cases hop
  | endBranch => cases hop
  | verify =>
    refine H.pop.bind fun a b h => ?_
    rw [H.isTrue h]
    exact verify _
  | abandon => exact .throw _
  | toAlt => exact H.pop.bind fun a b h => H.toAlt h
  | fromAlt => exact H.fromAlt.bind fun a b h => H.push h
  | move m => exact H.rearrange m
  | dupIfTrue =>
    refine H.top.bind fun a b h => ?_
    rw [H.isTrue h]
    exact .ite (fun _ => H.push h) (fun _ => .pure rfl)
  | depth => exact (hdepth rfl).bind_eq fun n => H.pushNumber _
  | pick remove =>
    exact H.popNumber.bind_eq fun n => (H.pick remove n).bind fun a b h => H.push h
  | cat =>
    refine H.popTwo fun b b' a a' hb ha => ?_
    rw [H.bytes ha, H.bytes hb]
    exact H.pushJoined _
  | slice => exact H.slice
  | keep fromEnd => exact H.keep fromEnd
  | size =>
    refine H.top.bind fun a b h => ?_
    rw [H.size h]
    exact H.pushNumber _
  | invert =>
    refine H.pop.bind fun a b h => ?_
    rw [H.bytes h]
    exact H.pushBytes _
  | bitwise op => exact H.bitwise op
  | equal =>
    refine H.popTwo fun b b' a a' hb ha => ?_
    rw [H.bytes ha, H.bytes hb]
    exact H.pushBool _
  | equalVerify =>
    refine H.popTwo fun b b' a a' hb ha => ?_
    rw [H.bytes ha, H.bytes hb]
    exact verify _
  | unary op => exact H.popNumber.bind_eq fun a => H.pushNumber _
  | binary op => exact H.popNumber.bind_eq fun b => H.popNumber.bind_eq fun a => H.pushNumber _
  | numEqualVerify => exact H.popNumber.bind_eq fun b => H.popNumber.bind_eq fun a => verify _
  | within =>
    exact H.popNumber.bind_eq fun max => H.popNumber.bind_eq fun min =>
      H.popNumber.bind_eq fun x => H.pushBool _
  | hash h =>
    refine H.pop.bind fun a b hab => ?_
    rw [H.bytes hab]
    exact H.pushBytes _
  | checkLockTime => exact H.checkAbsolute t
  | checkSequence => exact H.checkRelative t
  | inspect i => exact H.inspect t i
  | wordArith op => exact H.popWord.bind_eq fun b => H.popWord.bind_eq fun a => H.pushChecked _
  | wordDivide => exact H.divide
  | wordNegate => exact H.popWord.bind_eq fun a => H.pushChecked _
  | wordOrder op => exact H.popWord.bind_eq fun b => H.popWord.bind_eq fun a => H.pushBool _
  | toWord =>
    exact H.pop.bind fun a b h => (H.readNumber _ h).bind_eq fun n => H.pushBytes _
  | fromWord => exact H.popWord.bind_eq fun n => H.pushNumber n
  | widen =>
    refine H.pop.bind fun a b h => ?_
    rw [H.bytes h, H.size h]
    split
    · exact H.pushBytes _
    · exact .refuse _
  | reserved => exact .refuse _
  | retired => exact .throw _
  | unsupported => exact .throw _

end Respected

/-! ### The conditional structure -/

/-- What a relation satisfies besides, for the conditional structure to respect it. -/
structure RespectedBlocks (lenient : Prop) (R : Stacks → Stacks → Prop) : Prop where
  executing : Related lenient R Eq executing executing
  openBlock : ∀ c, Related lenient R Eq (openBlock c) (openBlock c)
  turnBlock : Related lenient R Eq turnBlock turnBlock
  closeBlock : Related lenient R Eq closeBlock closeBlock

namespace Respected
variable {lenient : Prop} {R : Stacks → Stacks → Prop} {E : Element → Element → Prop}
  (H : Respected lenient R E) (B : RespectedBlocks lenient R)
include H B

theorem branch (negated : Bool) :
    Related lenient R Eq (Operation.runBranch negated) (Operation.runBranch negated) := by
  refine B.executing.bind_eq fun executing => .ite (fun _ => ?_) (fun _ => B.openBlock false)
  refine H.pop.bind fun a b h => ?_
  rw [H.isTrue h]
  exact B.openBlock _

/-- Where it stands, every operation respects the relation. -/
theorem runInPlace (t : Option Template) (op : Operation)
    (hdepth : op = .depth → Related lenient R Eq Action.depth Action.depth) :
    Related lenient R Eq (op.runInPlace t) (op.runInPlace t) := by
  refine B.executing.bind_eq fun executing => .ite (fun _ => ?_) (fun _ => .pure rfl)
  cases hop : op.isConditional with
  | false => exact H.run t op hop hdepth
  | true =>
    cases op with
    | branch negated => exact H.branch B negated
    | otherwise => exact B.turnBlock
    | endBranch => exact B.closeBlock
    | _ => cases hop

end Respected

end ScriptBench.Action
