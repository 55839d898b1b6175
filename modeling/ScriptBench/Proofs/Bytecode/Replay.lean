import ScriptBench.Input
import ScriptBench.Proofs.Bytecode.Listing
import ScriptBench.Proofs.Machine.Display
import ScriptBench.Proofs.Text.Strip

/-! Replaying a listing.

The words of a listing are lines that can be fed to a machine. Fed to a new one, they
make the run over again, though not call by call: a literal may come back as the word
of a constant, and any word as the canonical one. So the replayed machine shows its
elements in another form, and is otherwise the same. -/
namespace ScriptBench

/-! ### Words as lines -/

theorem Input.ofLine_word {o : Opcode} (h : o ∈ opcodes) :
    ofLine o.word.toList = .opcode o.word.toList := by
  rw [Opcode.toList_word h]
  rfl

theorem Input.ofLine_hex (d : Bytes) :
    ofLine ("<0x" ++ d.hex ++ ">").toList = .hex d.hexDigits := by
  have hline : ("<0x" ++ d.hex ++ ">").toList = '<' :: ('0' :: 'x' :: d.hexDigits ++ ['>']) := by
    simp [Bytes.hex]
  have hpushed : pushed? ("<0x" ++ d.hex ++ ">").toList = some ('0' :: 'x' :: d.hexDigits) := by
    rw [hline]
    exact Text.stripEnd?_append _ _
  rw [ofLine, hpushed]
  rfl

namespace Machine
variable {m n : Machine}

theorem feed_word (m : Machine) {o : Opcode} (h : o ∈ opcodes) :
    m.feed false o.word.toList = .ok (m.call (.word o.word)) := by
  unfold feed
  rw [Input.ofLine_word h]
  simp only [Bool.false_and, Bool.false_eq_true, if_false, Input.call, String.ofList_toList]
  rfl

theorem feed_hex (m : Machine) (d : Bytes) :
    m.feed false ("<0x" ++ d.hex ++ ">").toList = .ok (m.call (.push (.hex d.hexDigits))) := by
  unfold feed
  rw [Input.ofLine_hex]
  rfl

/-! ### One call -/

/-- The opcode of a constant records its byte and pushes the number. -/
theorem runOpcode_constant (m : Machine) {o : Opcode} {k : Int} (ho : o.operation = .constant k) :
    m.runOpcode o =
      { m with
        bytecode := m.bytecode ++ [o.byte]
        main := if m.executing then .number k :: m.main else m.main } := by
  simp only [runOpcode, execute, ho, Operation.allowed, if_true, perform, Operation.runInPlace_eq,
    Operation.isConditional, Bool.false_or]
  cases m.executing <;> rfl

/-- A push with a byte of its own, on one side, and the opcode of that byte on the other. -/
theorem SameBytes.push_constant (h : m.SameBytes n) {e : Element} (hsize : e.size ≤ Element.maxSize)
    {op : UInt8} (hop : Bytecode.pushByte? e.bytes = some op) {o : Opcode} {k : Int} {word : String}
    (ho : o.Constant op k word) (hk : Number.encode k = e.bytes) :
    (m.pushElement e).SameBytes (n.runOpcode o) := by
  have hcode : Bytecode.push e.bytes = [op] := by rw [Bytecode.push, hop]
  have hsame : e.SameBytes (.number k) := hk.symm
  rw [runOpcode_constant n ho.operation, ho.byte, Machine.pushElement, if_pos hsize, hcode]
  exact h.record hsame [op]

/-- **A call and the line it is listed as do the same**, but for the form of an element. -/
theorem SameBytes.feed_listed (h : m.SameBytes n) {c : Call} (hc : (m.call c).error = none)
    {w : String} (hw : c.listed? m.rules = some w) :
    ∃ n', n.feed false w.toList = .ok n' ∧ (m.call c).SameBytes n' := by
  have hm := error_of_call hc
  have hn : n.error = none := h.error ▸ hm
  -- A literal comes back as a constant or in hexadecimal, an opcode under its first word.
  obtain ⟨-, ⟨l, e, rfl, hl, hsize, -⟩ | ⟨w', o, s, rfl, ho, -, -, -⟩⟩ := call_cases hc
  · rw [Call.listed?_push hl] at hw
    obtain rfl := Option.some.inj hw
    rw [call_push hm, hl]
    cases hop : Bytecode.pushByte? e.bytes with
    | some op =>
      obtain ⟨k, o, ho, hk⟩ := Opcode.exists_constant hop
      rw [← ho.word]
      refine ⟨_, feed_word n ho.mem, ?_⟩
      rw [call_word hn, RuleSet.opcode?_word (RuleSet.mem_known_of_everywhere ho.mem ho.scope)]
      exact h.push_constant hsize hop ho hk
    | none =>
      rw [Bytecode.pushWord_of_none hop]
      refine ⟨_, feed_hex n e.bytes, ?_⟩
      rw [call_push hn, Literal.element, Bytes.ofHex?_hexDigits]
      exact h.pushElement rfl
  · rw [Call.listed?_word ho] at hw
    obtain rfl := Option.some.inj hw
    obtain ⟨hknown, -⟩ := RuleSet.mem_of_opcode? ho
    refine ⟨_, feed_word n (RuleSet.mem_opcodes hknown), ?_⟩
    rw [call_word hm, ho, call_word hn, ← h.rules, RuleSet.opcode?_word hknown]
    exact h.runOpcode o

/-! ### A run -/

/-- Feeds words as lines, one after another, unless one is refused. -/
def replay (m : Machine) (words : List String) : Except Refusal Machine :=
  words.foldlM (fun m w => m.feed false w.toList) m

theorem SameBytes.replay_listed {calls : List Call} (h : m.SameBytes n)
    (hrun : (m.run calls).error = none) {words : List String}
    (hwords : words.map some = calls.map (·.listed? m.rules)) :
    ∃ n', n.replay words = .ok n' ∧ (m.run calls).SameBytes n' := by
  induction calls generalizing m n words with
  | nil =>
    obtain rfl : words = [] := List.map_eq_nil_iff.mp hwords
    exact ⟨n, rfl, h⟩
  | cons c rest ih =>
    cases words with
    | nil => cases hwords
    | cons w words =>
      rw [List.map_cons, List.map_cons, List.cons.injEq] at hwords
      obtain ⟨n', hfeed, hn'⟩ := h.feed_listed (error_of_run hrun) hwords.1.symm
      have hrest : words.map some = rest.map (·.listed? (m.call c).rules) := by
        rw [call_rules]
        exact hwords.2
      obtain ⟨n'', hreplay, hn''⟩ := ih hn' hrun hrest
      refine ⟨n'', ?_, hn''⟩
      rw [replay, List.foldlM_cons, hfeed]
      exact hreplay

/-- **Replaying a listing makes the run over again.** The listing of a run without an error
and without calls that announce lengths, fed to a machine begun alike, is never refused
and ends without an error, with the same bytecode, the same conditions, and on both stacks
elements with the same bytes. -/
theorem replay_listing (r : RuleSet) (t : Option Template) (calls : List Call)
    (h : ((started r t).run calls).error = none)
    (hcalls : ∀ c ∈ calls, c.namesPushData = false) :
    ∃ n, (started r t).replay ((started r t).run calls).listing = .ok n ∧
      n.error = none ∧
      n.bytecode = ((started r t).run calls).bytecode ∧
      n.conditions = ((started r t).run calls).conditions ∧
      n.main.map (·.bytes) = ((started r t).run calls).main.map (·.bytes) ∧
      n.alt.map (·.bytes) = ((started r t).run calls).alt.map (·.bytes) := by
  have hwords := map_listing_run h hcalls
  obtain ⟨n, hreplay, hn⟩ := (SameBytes.refl (started r t)).replay_listed h
    (hwords.trans (by rw [started_rules]))
  exact ⟨n, hreplay, hn.error ▸ h, hn.bytecode.symm, hn.conditions.symm, hn.main_bytes.symm,
    hn.alt_bytes.symm⟩

/-- A literal, the other word of `OP_1`, and the stack it is moved to. -/
theorem replay_listing_alias :
    ∃ n, (started .standard none).replay ["OP_16", "OP_1", "OP_TOALTSTACK"] = .ok n ∧
      n.error = none ∧ n.bytecode = [0x60, 0x51, 0x6b] ∧ n.conditions = [] ∧
      n.main.map (·.bytes) = [[0x10]] ∧ n.alt.map (·.bytes) = [[0x01]] := by
  have hlisting : ((started .standard none).run
      [.push (.hex ['1', '0']), .word "OP_TRUE", .word "OP_TOALTSTACK"]).listing =
        ["OP_16", "OP_1", "OP_TOALTSTACK"] := by decide +kernel
  obtain ⟨n, hreplay, herror, hbytecode, hconditions, hmain, halt⟩ :=
    replay_listing .standard none
      [.push (.hex ['1', '0']), .word "OP_TRUE", .word "OP_TOALTSTACK"]
      (by decide +kernel) (by decide +kernel)
  refine ⟨n, hlisting ▸ hreplay, herror, hbytecode.trans ?_, hconditions.trans ?_, hmain.trans ?_,
    halt.trans ?_⟩ <;> decide +kernel

end Machine

end ScriptBench
