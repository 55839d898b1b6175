import ScriptBench.Proofs.Machine.Display
import ScriptBench.Proofs.Machine.History

/-! The form of an element never influences a run.

Two machines whose stacks hold the same bytes, in whatever form, are put to the same use;
where one is given a literal, the other may be given any literal with the same bytes. They
cannot be told apart by what they do: after every use they hold the same error or none, the
same conditions, the same record, and again the same bytes on both stacks. -/
namespace ScriptBench

/-- The same use, but for the form of a literal. -/
inductive Use.SameBytes : Use → Use → Prop where
  | refl (u : Use) : SameBytes u u
  | push {k l : Literal} {a b : Element} (hk : k.element = .ok a) (hl : l.element = .ok b)
      (hab : a.bytes = b.bytes) : SameBytes (.call (.push k)) (.call (.push l))

/-- Equal machines, but for the form of the elements: the stacks are read as bytes. -/
structure Machine.EqualAsBytes (m n : Machine) : Prop where
  rules : m.rules = n.rules
  template : m.template = n.template
  error : m.error = n.error
  conditions : m.conditions = n.conditions
  bytecode : m.bytecode = n.bytecode
  main : m.main.map (·.bytes) = n.main.map (·.bytes)
  alt : m.alt.map (·.bytes) = n.alt.map (·.bytes)

theorem Element.SameBytes.forall₂_of_map {s t : List Element}
    (h : s.map bytes = t.map bytes) : List.Forall₂ SameBytes s t := by
  induction s generalizing t with
  | nil =>
    obtain rfl : t = [] := List.map_eq_nil_iff.mp h.symm
    exact .nil
  | cons a s ih =>
    obtain ⟨b, t, rfl, hab, hst⟩ := List.map_eq_cons_iff.mp h.symm
    exact .cons hab.symm (ih hst.symm)

namespace Machine
variable {m n : Machine}

/-- Position by position, or read as bytes. -/
theorem sameBytes_iff_equalAsBytes : m.SameBytes n ↔ m.EqualAsBytes n := by
  constructor
  · intro h
    exact ⟨h.rules, h.template, h.error, h.conditions, h.bytecode, h.main_bytes, h.alt_bytes⟩
  · intro h
    refine ⟨⟨m.conditions, ?_, ?_, rfl, h.conditions.symm⟩, h.rules, h.error, h.template,
      h.bytecode⟩
    · exact Element.SameBytes.forall₂_of_map h.main
    · exact Element.SameBytes.forall₂_of_map h.alt

/-! ### One use -/

namespace SameBytes

/-- Literals with the same bytes. -/
theorem call_push (h : m.SameBytes n) {k l : Literal} {a b : Element} (hk : k.element = .ok a)
    (hl : l.element = .ok b) (hab : a.bytes = b.bytes) :
    (m.call (.push k)).SameBytes (n.call (.push l)) := by
  cases he : m.error with
  | some e => rwa [call_of_error he, call_of_error (h.error ▸ he)]
  | none =>
    rw [Machine.call_push he, hk, Machine.call_push (h.error ▸ he), hl]
    exact h.pushElement hab

theorem call (h : m.SameBytes n) (c : Call) : (m.call c).SameBytes (n.call c) := by
  cases he : m.error with
  | some e => rwa [call_of_error he, call_of_error (h.error ▸ he)]
  | none =>
    have hn : n.error = none := h.error ▸ he
    cases c with
    | push l =>
      rw [Machine.call_push he, Machine.call_push hn]
      cases l.element with
      | error e => exact h.fail e
      | ok e => exact h.pushElement rfl
    | word w =>
      rw [call_word he, call_word hn, h.rules]
      cases n.rules.opcode? w with
      | none => exact h.fail _
      | some o => exact h.runOpcode o

theorem clear (h : m.SameBytes n) : m.clear.SameBytes n.clear := by
  rw [clear_eq_new, clear_eq_new, h.rules]
  exact SameBytes.refl _

theorem supply (h : m.SameBytes n) (t : Template) :
    (m.withTemplate (some t)).SameBytes (n.withTemplate (some t)) :=
  ⟨h.matched, h.rules, h.error, rfl, h.bytecode⟩

theorem use (h : m.SameBytes n) {u v : Use} (huv : u.SameBytes v) : (m.use u).SameBytes (n.use v) := by
  cases huv with
  | push hk hl hab => exact h.call_push hk hl hab
  | refl u =>
    cases u with
    | call c => exact h.call c
    | clear => exact h.clear
    | supply t => exact h.supply t

/-! ### A sequence of uses -/

theorem uses (h : m.SameBytes n) {us vs : List Use} (huv : List.Forall₂ Use.SameBytes us vs) :
    (m.uses us).SameBytes (n.uses vs) := by
  induction huv generalizing m n with
  | nil => exact h
  | cons hab _ ih => exact ih (h.use hab)

end SameBytes

/-- **Machines with the same bytes stay so**, after every step of two sequences of uses
that differ in nothing but the form of their literals. -/
theorem uses_equalAsBytes (h : m.EqualAsBytes n) {us vs : List Use}
    (huv : List.Forall₂ Use.SameBytes us vs) (steps : Nat) :
    (m.uses (us.take steps)).EqualAsBytes (n.uses (vs.take steps)) := by
  rw [← sameBytes_iff_equalAsBytes] at h ⊢
  exact h.uses (List.forall₂_take steps huv)

/-- A machine that holds one element. -/
def holding (e : Element) : Machine := { new .standard with main := [e] }

/-- The letter `a` as a number, a text and in hexadecimal. -/
theorem uses_equalAsBytes_letter :
    holding (.number 97) ≠ holding (.text ['a']) ∧
    (holding (.number 97)).EqualAsBytes (holding (.text ['a'])) ∧
    ((holding (.number 97)).uses
        ([.call (.push (.hex ['6', '1'])), .call (.word "OP_EQUALVERIFY")].take 2)).EqualAsBytes
      ((holding (.text ['a'])).uses
        ([.call (.push (.number 97)), .call (.word "OP_EQUALVERIFY")].take 2)) := by
  have hholding : (holding (.number 97)).EqualAsBytes (holding (.text ['a'])) :=
    ⟨rfl, rfl, rfl, rfl, rfl, by decide +kernel, rfl⟩
  have hpush : (Use.call (.push (.hex ['6', '1']))).SameBytes (.call (.push (.number 97))) :=
    .push (a := .raw [0x61]) rfl rfl (by decide +kernel)
  exact ⟨by decide +kernel, hholding,
    uses_equalAsBytes hholding (.cons hpush (.cons (.refl _) .nil)) 2⟩

end Machine

end ScriptBench
