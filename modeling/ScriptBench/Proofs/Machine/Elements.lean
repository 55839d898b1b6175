import ScriptBench.Proofs.Literal.ScriptNumber
import ScriptBench.Proofs.Machine.Alike
import ScriptBench.Proofs.Machine.History
import ScriptBench.Proofs.Opcode.Table

/-! What every element on the stacks satisfies.

Sizes are checked where a literal is pushed and where an opcode joins two elements. All
other opcodes make elements that are no longer than their operands, or of a fixed width, or
numbers; and numbers stay within words of 64 bits, because operands have four bytes at most.
`Action.Keeps` carries this through the actions, with one rule for each that touches the
stacks, and `Action.Keeps.run` gathers the operations. -/
namespace ScriptBench

/-- The numbers that opcodes stand for are words. -/
theorem Opcode.inWord64_of_constant {o : Opcode} {n : Int} (ho : o ∈ opcodes)
    (h : o.operation = .constant n) : Number.inWord64 n = true := by
  have htable : ∀ o ∈ opcodes, ∀ n ∈ [o.operation].filterMap
      (fun | .constant n => some n | _ => none), Number.inWord64 n = true := by decide +kernel
  exact htable o ho n (by simp [h])

/-- Digests have 20 or 32 bytes. -/
theorem Hash.length_digest_le (h : Hash) (b : Bytes) : (h.digest b).length ≤ 32 := by
  cases h with
  | ripemd160 | hash160 => exact Nat.le_trans (Nat.le_of_eq (Ripemd160.length_digest _)) (by decide)
  | sha256 | hash256 => exact Nat.le_of_eq (Sha256.length_digest _)

/-! ### Elements that fit -/

/-- No longer than an element may be. -/
def Element.Fits (e : Element) : Prop := e.size ≤ Element.maxSize

theorem Element.fits_number {n : Int} (h : Number.inWord64 n = true) : (number n).Fits :=
  Nat.le_trans (Number.length_encode_le h) (by decide)

/-- All elements on both stacks fit. -/
structure Stacks.Fits (s : Stacks) : Prop where
  main : ∀ e ∈ s.main, e.Fits
  alt : ∀ e ∈ s.alt, e.Fits

namespace Action
variable {α β : Type}

/-- Stacks whose elements fit, and a value with the property `Q` when there is one. -/
inductive Leaves (Q : α → Prop) : EStateM.Result Fault Stacks α → Prop where
  | ok {a s} : Q a → s.Fits → Leaves Q (.ok a s)
  | error {f s} : s.Fits → Leaves Q (.error f s)

/-- From stacks whose elements fit, the action gives a value with the property `Q` or fails,
and leaves such stacks in both cases. -/
def Keeps (Q : α → Prop) (x : Action α) : Prop := ∀ s, s.Fits → Leaves Q (x s)

/-- Nothing is asked of a value. -/
def Anything : α → Prop := fun _ => True

namespace Keeps
variable {Q : α → Prop} {R : β → Prop}

theorem pure {a : α} (h : Q a) : Keeps Q (Pure.pure a) := fun _ hs => .ok h hs

theorem throw (f : Fault) : Keeps Q (MonadExcept.throw f) := fun _ hs => .error hs

theorem refuse (why : OperandFault) : Keeps Q (Action.refuse why) := throw _

theorem mono {Q' : α → Prop} {x : Action α} (hx : Keeps Q x) (h : ∀ a, Q a → Q' a) :
    Keeps Q' x := by
  intro s hs
  have hleaves := hx s hs
  generalize x s = result at hleaves ⊢
  cases hleaves with
  | ok ha hs => exact .ok (h _ ha) hs
  | error hs => exact .error hs

theorem bind {x : Action α} {f : α → Action β} (hx : Keeps Q x) (hf : ∀ a, Q a → Keeps R (f a)) :
    Keeps R (x >>= f) := by
  intro s hs
  show Leaves R (EStateM.bind x f s)
  unfold EStateM.bind
  have h := hx s hs
  generalize x s = result at h ⊢
  cases h with
  | ok ha hs => exact hf _ ha _ hs
  | error hs => exact .error hs

theorem ite {c : Prop} [Decidable c] {x y : Action α} (h : c → Keeps Q x) (h' : ¬ c → Keeps Q y) :
    Keeps Q (if c then x else y) := by
  by_cases hc : c
  · simpa only [if_pos hc] using h hc
  · simpa only [if_neg hc] using h' hc

/-! ### Actions on the stacks -/

theorem push {e : Element} (h : e.Fits) : Keeps Anything (push e) :=
  fun _ hs => .ok trivial ⟨List.forall_mem_cons.mpr ⟨h, hs.main⟩, hs.alt⟩

theorem pushNumber {n : Int} (h : Number.inWord64 n = true) : Keeps Anything (pushNumber n) :=
  push (Element.fits_number h)

theorem pushBool (b : Bool) : Keeps Anything (pushBool b) := pushNumber (Number.inWord64_truth b)

theorem pushBytes {b : Bytes} (h : b.length ≤ Element.maxSize) : Keeps Anything (pushBytes b) :=
  push h

theorem pop : Keeps Element.Fits pop := by
  intro s hs
  unfold Action.pop
  cases hmain : s.main with
  | nil => exact .error hs
  | cons e rest =>
    obtain ⟨he, hrest⟩ := List.forall_mem_cons.mp (hmain ▸ hs.main)
    exact .ok he ⟨hrest, hs.alt⟩

theorem top : Keeps Element.Fits top := by
  intro s hs
  unfold Action.top
  cases hmain : s.main with
  | nil => exact .error hs
  | cons e rest => exact .ok (hs.main e (hmain ▸ List.mem_cons_self)) hs

theorem depth : Keeps Anything depth := fun _ hs => .ok trivial hs

theorem pick (remove : Bool) (n : Int) : Keeps Element.Fits (pick remove n) := by
  intro s hs
  unfold Action.pick
  dsimp only
  split
  · exact .error hs
  · cases he : s.main[n.toNat]? with
    | none => exact .error hs
    | some e =>
      refine .ok (hs.main e (List.mem_of_getElem? he)) ?_
      cases remove
      · exact hs
      · exact ⟨fun a ha => hs.main a (List.mem_of_mem_eraseIdx ha), hs.alt⟩

theorem rearrange (m : Move) : Keeps Anything (rearrange m) := by
  intro s hs
  unfold Action.rearrange
  have hsame (l : List Element) : List.Forall₂ (fun e _ => e.Fits) l l ↔ ∀ e ∈ l, e.Fits :=
    List.forall₂_same
  have hmain := Stacks.forall₂_rearranged? m ((hsame _).mpr hs.main)
  cases hm : m.rearranged? s.main with
  | none => exact .error hs
  | some main =>
    rw [hm] at hmain
    cases hmain with
    | some hmain => exact .ok trivial ⟨(hsame _).mp hmain, hs.alt⟩

theorem toAlt {e : Element} (h : e.Fits) : Keeps Anything (toAlt e) :=
  fun _ hs => .ok trivial ⟨hs.main, List.forall_mem_cons.mpr ⟨h, hs.alt⟩⟩

theorem fromAlt : Keeps Element.Fits fromAlt := by
  intro s hs
  unfold Action.fromAlt
  cases halt : s.alt with
  | nil => exact .error hs
  | cons e rest =>
    obtain ⟨he, hrest⟩ := List.forall_mem_cons.mp (halt ▸ hs.alt)
    exact .ok he ⟨hs.main, hrest⟩

theorem executing : Keeps Anything executing := fun _ hs => .ok trivial hs

theorem openBlock (c : Bool) : Keeps Anything (openBlock c) :=
  fun _ hs => .ok trivial ⟨hs.main, hs.alt⟩

theorem turnBlock : Keeps Anything turnBlock := by
  intro s hs
  unfold Action.turnBlock
  split
  · exact .error hs
  · exact .ok trivial ⟨hs.main, hs.alt⟩

theorem closeBlock : Keeps Anything closeBlock := by
  intro s hs
  unfold Action.closeBlock
  split
  · exact .error hs
  · exact .ok trivial ⟨hs.main, hs.alt⟩

/-! ### Operands -/

theorem readNumber (limit : Nat) (e : Element) :
    Keeps (fun n => Number.decode? limit e.bytes = some n) (readNumber limit e) := by
  unfold Action.readNumber
  split
  · exact .pure ‹_›
  · exact .throw _

theorem popNumber : Keeps Number.IsOperand popNumber :=
  pop.bind fun e _ => (readNumber Number.operandLimit e).mono fun _ => Number.isOperand_of_decode?

theorem popIndex : Keeps Anything popIndex :=
  popNumber.bind fun _ _ => .ite (fun _ => .refuse _) (fun _ => .pure trivial)

theorem popWord : Keeps (fun n => Number.inWord64 n = true) popWord := by
  refine pop.bind fun e _ => ?_
  split
  · rename_i n hn
    exact .pure (Number.inWord64_of_decodeWord64? hn)
  · exact .refuse _

/-- Two elements popped, the top one first. -/
theorem popTwo {f : Element → Element → Action Unit}
    (hf : ∀ b a, b.Fits → a.Fits → Keeps Anything (f b a)) :
    Keeps Anything (do let b ← Action.pop; let a ← Action.pop; f b a) :=
  pop.bind fun b hb => pop.bind fun a ha => hf b a hb ha

/-- Two numbers popped, the top one first. -/
theorem popTwoNumbers {f : Int → Int → Action Unit}
    (hf : ∀ b a, Number.IsOperand b → Number.IsOperand a → Keeps Anything (f b a)) :
    Keeps Anything (do let b ← Action.popNumber; let a ← Action.popNumber; f b a) :=
  popNumber.bind fun b hb => popNumber.bind fun a ha => hf b a hb ha

theorem pushWord (n : Int) : Keeps Anything (Action.pushBytes (encodeWord64 n)) := by
  refine pushBytes ?_
  rw [encodeWord64, length_littleEndian]
  decide

theorem pushLittleEndian {width : Nat} (h : width ≤ Element.maxSize) (n : Nat) :
    Keeps Anything (Action.pushBytes (littleEndian width n)) := by
  refine pushBytes ?_
  rwa [length_littleEndian]

theorem pushChecked (n : Int) : Keeps Anything (pushChecked n) :=
  .ite (fun _ => (pushWord n).bind fun _ _ => pushBool _) (fun _ => pushBool _)

/-- The check of what is joined. -/
theorem pushJoined (b : Bytes) : Keeps Anything (pushJoined b) :=
  .ite pushBytes (fun _ => .throw _)

theorem verify (b : Bool) : Keeps Anything (Action.verify b) :=
  .ite (fun _ => .pure trivial) (fun _ => .throw _)

theorem required (t : Option Template) : Keeps Anything (required t) := by
  cases t with
  | none => exact .throw _
  | some t => exact .pure trivial

/-! ### Operations -/

theorem lockOperand : Keeps Anything LockTime.operand :=
  top.bind fun e _ => (readNumber _ e).mono fun _ _ => trivial

theorem checkAbsolute (t : Option Template) : Keeps Anything (LockTime.checkAbsolute t) := by
  refine (required t).bind fun tx _ => lockOperand.bind fun lock _ => .ite (fun _ => .refuse _) ?_
  intro _
  split
  · exact .throw _
  · exact .pure trivial

theorem checkRelative (t : Option Template) : Keeps Anything (LockTime.checkRelative t) := by
  refine (required t).bind fun tx _ => lockOperand.bind fun lock _ => .ite (fun _ => .refuse _) ?_
  intro _
  split
  · exact .throw _
  · exact .pure trivial

theorem amount (index : Nat) (n : Option UInt64) :
    Keeps Anything (Inspection.run.amount index n) := by
  cases n with
  | none => exact .refuse _
  | some n =>
    exact (pushLittleEndian (by decide) _).bind fun _ _ => pushBytes (b := [0x01]) (by decide)

theorem inspect (t : Option Template) (i : Inspection) : Keeps Anything (i.run t) := by
  cases i with
  | currentInput =>
    refine (required t).bind fun tx _ => pushNumber (Number.inWord64_iff.mpr ?_)
    have hindex := tx.currentInput.toNat_lt
    omega
  | inputValue => exact popIndex.bind fun index _ => (required t).bind fun _ _ => amount index _
  | outputValue => exact popIndex.bind fun index _ => (required t).bind fun _ _ => amount index _
  | inputSequence =>
    refine popIndex.bind fun index _ => (required t).bind fun _ _ => ?_
    split
    · exact pushLittleEndian (by decide) _
    · exact .refuse _
  | version => exact (required t).bind fun _ _ => pushLittleEndian (by decide) _
  | lockTime => exact (required t).bind fun _ _ => pushLittleEndian (by decide) _
  | inputCount => exact (required t).bind fun _ _ => pushNumber (Number.inWord64_bmod _)
  | outputCount => exact (required t).bind fun _ _ => pushNumber (Number.inWord64_bmod _)

theorem branch (negated : Bool) : Keeps Anything (Operation.runBranch negated) :=
  executing.bind fun _ _ => .ite (fun _ => pop.bind fun _ _ => openBlock _) fun _ => openBlock _

theorem slice : Keeps Anything Operation.runSlice := by
  refine popIndex.bind fun size _ => popIndex.bind fun start _ => pop.bind fun e he => ?_
  refine .ite (fun _ => pushBytes ?_) (fun _ => .refuse _)
  have hpart := (List.take_sublist size (e.bytes.drop start)).trans (List.drop_sublist start _)
  exact Nat.le_trans hpart.length_le he

theorem keep (fromEnd : Bool) : Keeps Anything (Operation.runKeep fromEnd) := by
  refine popIndex.bind fun size _ => pop.bind fun e he => pushBytes (Nat.le_trans ?_ he)
  cases fromEnd with
  | true => exact (List.drop_sublist _ _).length_le
  | false => exact (List.take_sublist _ _).length_le

theorem bitwise (op : Bitwise) : Keeps Anything (Operation.runBitwise op) := by
  refine popTwo fun b a _ ha => .ite (fun _ => pushBytes (Nat.le_trans ?_ ha)) (fun _ => .refuse _)
  rw [List.length_zipWith]
  exact Nat.min_le_left _ _

theorem divide : Keeps Anything Operation.runDivide := by
  refine popWord.bind fun b _ => popWord.bind fun a _ => .ite (fun _ => pushBool _) fun _ => ?_
  exact (pushWord _).bind fun _ _ => (pushWord _).bind fun _ _ => pushBool _

/-- **Every operation leaves elements that fit,** the numbers that opcodes stand for being words. -/
theorem run (t : Option Template) (op : Operation)
    (hconstant : ∀ n, op = .constant n → Number.inWord64 n = true) : Keeps Anything (op.run t) := by
  cases op with
  | constant n => exact pushNumber (hconstant n rfl)
  | pushData => exact .refuse _
  | skip => exact .pure trivial
  | branch negated => exact branch negated
  | otherwise => exact turnBlock
  | endBranch => exact closeBlock
  | verify => exact pop.bind fun e _ => verify _
  | abandon => exact .throw _
  | toAlt => exact pop.bind fun e he => toAlt he
  | fromAlt => exact fromAlt.bind fun e he => push he
  | move m => exact rearrange m
  | dupIfTrue => exact top.bind fun e he => .ite (fun _ => push he) (fun _ => .pure trivial)
  | depth => exact depth.bind fun n _ => pushNumber (Number.inWord64_bmod _)
  | pick remove =>
    exact popNumber.bind fun n _ => (pick remove n).bind fun e he => push he
  | cat => exact popTwo fun b a _ _ => pushJoined _
  | slice => exact slice
  | keep fromEnd => exact keep fromEnd
  | size => exact top.bind fun e _ => pushNumber (Number.inWord64_bmod _)
  | invert =>
    refine pop.bind fun e he => pushBytes ?_
    rwa [List.length_map]
  | bitwise op => exact bitwise op
  | equal => exact popTwo fun b a _ _ => pushBool _
  | equalVerify => exact popTwo fun b a _ _ => verify _
  | unary op => exact popNumber.bind fun a ha => pushNumber (Number.inWord64_unary op ha)
  | binary op => exact popTwoNumbers fun b a hb ha => pushNumber (Number.inWord64_binary op ha hb)
  | numEqualVerify => exact popTwoNumbers fun b a _ _ => verify _
  | within =>
    exact popNumber.bind fun max _ => popNumber.bind fun min _ => popNumber.bind fun x _ =>
      pushBool _
  | hash h =>
    exact pop.bind fun e _ => pushBytes (Nat.le_trans (h.length_digest_le _) (by decide))
  | checkLockTime => exact checkAbsolute t
  | checkSequence => exact checkRelative t
  | inspect i => exact inspect t i
  | wordArith op => exact popWord.bind fun b _ => popWord.bind fun a _ => pushChecked _
  | wordDivide => exact divide
  | wordNegate => exact popWord.bind fun a _ => pushChecked _
  | wordOrder op => exact popWord.bind fun b _ => popWord.bind fun a _ => pushBool _
  | toWord => exact pop.bind fun e _ => (readNumber _ e).bind fun n _ => pushWord n
  | fromWord => exact popWord.bind fun n hn => pushNumber hn
  | widen =>
    refine pop.bind fun e _ => ?_
    split
    · exact pushWord _
    · exact .refuse _
  | reserved => exact .refuse _
  | retired => exact .throw _
  | unsupported => exact .throw _

theorem runInPlace (t : Option Template) (op : Operation)
    (hconstant : ∀ n, op = .constant n → Number.inWord64 n = true) :
    Keeps Anything (op.runInPlace t) :=
  executing.bind fun _ _ => .ite (fun _ => run t op hconstant) (fun _ => .pure trivial)

end Keeps

end Action

namespace Machine
variable {m : Machine}

/-! ### Uses -/

theorem perform_fits {word : String} {action : Action Unit}
    (haction : Action.Keeps Action.Anything action) (h : m.Fits) : (m.perform word action).Fits := by
  have hleaves := haction m.toStacks h
  unfold perform
  generalize action m.toStacks = result at hleaves ⊢
  cases hleaves with
  | ok _ hs => exact hs
  | error hs => exact hs

theorem call_fits (h : m.Fits) (c : Call) : (m.call c).Fits := by
  cases he : m.error with
  | some e => rwa [call_of_error he]
  | none =>
    cases hfault : c.fault? m.rules with
    | some e => rwa [(call_fault he hfault).2]
    | none =>
      obtain ⟨l, e, rfl, hl, hsize⟩ | ⟨w, o, rfl, ho, hallowed⟩ := Call.cases_of_fault?_none hfault
      · rw [call_literal he hl hsize]
        cases m.executing with
        | true => exact ⟨List.forall_mem_cons.mpr ⟨hsize, h.main⟩, h.alt⟩
        | false => exact h
      · rw [call_opcode he ho hallowed]
        have hknown := RuleSet.mem_opcodes (RuleSet.mem_of_opcode? ho).1
        exact perform_fits (Action.Keeps.runInPlace m.template o.operation fun n =>
          Opcode.inWord64_of_constant hknown) h

theorem new_fits (r : RuleSet) : (new r).Fits := ⟨List.forall_mem_nil _, List.forall_mem_nil _⟩

theorem use_fits (h : m.Fits) (u : Use) : (m.use u).Fits := by
  cases u with
  | call c => exact call_fits h c
  | clear => exact new_fits m.rules
  | supply t => exact h

theorem uses_fits (h : m.Fits) (history : List Use) : (m.uses history).Fits := by
  induction history generalizing m with
  | nil => exact h
  | cons u rest ih => exact ih (use_fits h u)

end Machine

/-- An element that may stand on a stack. -/
structure Element.Sound (e : Element) : Prop where
  size : e.bytes.length ≤ 520
  number : ∀ n, e.number? = some n → e.bytes = Number.encode n ∧ Number.value e.bytes = n
  text : ∀ t, e.text? = some t → e.bytes = (String.ofList t).toUTF8.data.toList

/-- The bytes of an element are those of its form. -/
theorem Element.sound_of_fits {e : Element} (h : e.Fits) : e.Sound where
  size := h
  number n hn := by
    cases e with
    | number k =>
      cases hn
      exact ⟨rfl, Number.value_encode _⟩
    | _ => cases hn
  text t ht := by
    cases e with
    | text u =>
      cases ht
      simp [bytes, String.toUTF8, List.utf8Encode, Text.utf8]
    | _ => cases ht

namespace Machine

/-- **Every element on either stack is sound,** whatever a machine was used for. -/
theorem uses_sound (r : RuleSet) (history : List Use) :
    ∀ e ∈ ((new r).uses history).main ++ ((new r).uses history).alt, e.Sound := by
  intro e he
  have hfits : ((new r).uses history).Fits := uses_fits (new_fits r) history
  rcases List.mem_append.mp he with hmain | halt
  · exact Element.sound_of_fits (hfits.main e hmain)
  · exact Element.sound_of_fits (hfits.alt e halt)

/-- A history that joins two elements to one as long as may be, over a text on the second stack. -/
def joiningHistory : List Use :=
  [.call (.push (.text ['é'])), .call (.word "OP_TOALTSTACK"), .call (.push (.number (-128))),
    .call (.push (.hex (List.replicate 520 'f'))), .call (.word "OP_DUP"), .call (.word "OP_CAT")]

theorem uses_sound_joining :
    ((new ⟨.liquid, .segwit⟩).uses joiningHistory).error = none ∧
    Element.raw (List.replicate 520 0xff) ∈ ((new ⟨.liquid, .segwit⟩).uses joiningHistory).main ++
      ((new ⟨.liquid, .segwit⟩).uses joiningHistory).alt ∧
    (Element.raw (List.replicate 520 0xff)).Sound ∧
    Element.number (-128) ∈ ((new ⟨.liquid, .segwit⟩).uses joiningHistory).main ++
      ((new ⟨.liquid, .segwit⟩).uses joiningHistory).alt ∧
    (Element.number (-128)).Sound ∧
    Element.text ['é'] ∈ ((new ⟨.liquid, .segwit⟩).uses joiningHistory).main ++
      ((new ⟨.liquid, .segwit⟩).uses joiningHistory).alt ∧
    (Element.text ['é']).Sound := by
  have hmembers : Element.raw (List.replicate 520 0xff) ∈
        ((new ⟨.liquid, .segwit⟩).uses joiningHistory).main ++
          ((new ⟨.liquid, .segwit⟩).uses joiningHistory).alt ∧
      Element.number (-128) ∈ ((new ⟨.liquid, .segwit⟩).uses joiningHistory).main ++
        ((new ⟨.liquid, .segwit⟩).uses joiningHistory).alt ∧
      Element.text ['é'] ∈ ((new ⟨.liquid, .segwit⟩).uses joiningHistory).main ++
        ((new ⟨.liquid, .segwit⟩).uses joiningHistory).alt := by decide +kernel
  obtain ⟨hraw, hnumber, htext⟩ := hmembers
  have hsound := uses_sound ⟨.liquid, .segwit⟩ joiningHistory
  exact ⟨by decide +kernel, hraw, hsound _ hraw, hnumber, hsound _ hnumber, htext, hsound _ htext⟩

end Machine

end ScriptBench
