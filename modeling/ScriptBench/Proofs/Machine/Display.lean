import ScriptBench.Proofs.Machine.Alike
import ScriptBench.Proofs.Machine.Run

/-! Machines that differ in nothing but how elements are shown.

Opcodes read the bytes of elements and never their form, so two such machines stay
so, whichever calls are made on both, and whatever the form of a literal on either. -/
namespace ScriptBench

theorem Element.SameBytes.map_bytes {s t : List Element} (h : List.Forall₂ SameBytes s t) :
    s.map bytes = t.map bytes := by
  induction h with
  | nil => rfl
  | cons hab _ ih => exact congrArg₂ List.cons hab ih

/-- Equal machines, but for the form of the elements on their stacks. -/
structure Machine.SameBytes (m n : Machine) : Prop where
  matched : Stacks.Matched Element.SameBytes m.toStacks n.toStacks
  rules : m.rules = n.rules
  error : m.error = n.error
  template : m.template = n.template
  bytecode : m.bytecode = n.bytecode

namespace Machine.SameBytes
variable {m n : Machine}

theorem refl (m : Machine) : m.SameBytes m :=
  have hrefl (s : List Element) : List.Forall₂ Element.SameBytes s s :=
    List.forall₂_same.mpr fun _ _ => rfl
  ⟨⟨m.conditions, hrefl _, hrefl _, rfl, rfl⟩, rfl, rfl, rfl, rfl⟩

theorem conditions (h : m.SameBytes n) : m.conditions = n.conditions := by
  obtain ⟨c, hc⟩ := h.matched
  exact hc.left.trans hc.right.symm

theorem executing (h : m.SameBytes n) : m.executing = n.executing := by
  rw [Stacks.executing, Stacks.executing, h.conditions]

theorem main_bytes (h : m.SameBytes n) : m.main.map (·.bytes) = n.main.map (·.bytes) := by
  obtain ⟨c, hc⟩ := h.matched
  exact Element.SameBytes.map_bytes hc.main

theorem alt_bytes (h : m.SameBytes n) : m.alt.map (·.bytes) = n.alt.map (·.bytes) := by
  obtain ⟨c, hc⟩ := h.matched
  exact Element.SameBytes.map_bytes hc.alt

theorem fail (h : m.SameBytes n) (e : ScriptError) : (m.fail e).SameBytes (n.fail e) :=
  ⟨h.matched, h.rules, rfl, h.template, h.bytecode⟩

/-- Elements with the same bytes, recorded and pushed where the branch is run. -/
theorem record (h : m.SameBytes n) {a b : Element} (hab : a.SameBytes b) (code : Bytes) :
    ({ m with
      bytecode := m.bytecode ++ code
      main := if m.executing then a :: m.main else m.main } : Machine).SameBytes
    { n with
      bytecode := n.bytecode ++ code
      main := if n.executing then b :: n.main else n.main } := by
  refine ⟨?_, h.rules, h.error, h.template, congrArg (· ++ code) h.bytecode⟩
  rw [h.executing]
  obtain ⟨c, hc⟩ := h.matched
  cases n.executing with
  | false => exact ⟨c, hc⟩
  | true => exact ⟨c, .cons hab hc.main, hc.alt, hc.left, hc.right⟩

theorem pushElement (h : m.SameBytes n) {a b : Element} (hab : a.SameBytes b) :
    (m.pushElement a).SameBytes (n.pushElement b) := by
  have hsize : a.size = b.size := congrArg List.length hab
  unfold Machine.pushElement
  rw [hsize, show a.bytes = b.bytes from hab]
  split
  · exact h.record hab _
  · exact h.fail _

theorem perform (h : m.SameBytes n) (word : String) {x y : Action Unit}
    (hxy : Action.Related False (Stacks.Matched Element.SameBytes) Eq x y) :
    (m.perform word x).SameBytes (n.perform word y) := by
  have hrun := hxy _ _ h.matched
  unfold Machine.perform
  generalize x m.toStacks = a at hrun ⊢
  generalize y n.toStacks = b at hrun ⊢
  cases hrun with
  | ok _ hs => exact ⟨hs, h.rules, h.error, h.template, h.bytecode⟩
  | error hs => exact ⟨hs, h.rules, rfl, h.template, h.bytecode⟩
  | excused hfalse => exact hfalse.elim

theorem execute (h : m.SameBytes n) (o : Opcode) : (m.execute o).SameBytes (n.execute o) := by
  unfold Machine.execute
  rw [h.rules, h.template]
  split
  · exact h.perform _ (Stacks.Matched.related_runInPlace id (fun _ _ => rfl) _ _)
  · exact h.fail _

theorem runOpcode (h : m.SameBytes n) (o : Opcode) :
    (m.runOpcode o).SameBytes (n.runOpcode o) := by
  have hrecorded : ({ m with bytecode := m.bytecode ++ [o.byte] } : Machine).SameBytes
      { n with bytecode := n.bytecode ++ [o.byte] } :=
    ⟨h.matched, h.rules, h.error, h.template, congrArg (· ++ [o.byte]) h.bytecode⟩
  exact hrecorded.execute o

end Machine.SameBytes

end ScriptBench
