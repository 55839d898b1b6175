import Mathlib.Data.List.Forall2
import ScriptBench.Proofs.Machine.Related

/-! Stacks that agree element by element.

Elements are compared by a relation that keeps their bytes: equality, equality of elements
with some property, or having the same bytes in whatever form. Operations outside of the
conditional structure do the same on both, and neither read nor change the conditions
(`Stacks.Alike.respected`). -/
namespace ScriptBench

/-- Elements with the same bytes, however they are shown. -/
def Element.SameBytes (a b : Element) : Prop := a.bytes = b.bytes

/-- Related elements on both stacks, under the conditions `c` on one side and `d` on the other. -/
structure Stacks.Alike (E : Element → Element → Prop) (c d : List Bool) (s t : Stacks) : Prop where
  main : List.Forall₂ E s.main t.main
  alt : List.Forall₂ E s.alt t.alt
  left : s.conditions = c
  right : t.conditions = d

namespace Stacks

theorem forall₂_getElem? {α β : Type} {E : α → β → Prop} {s : List α} {t : List β}
    (h : List.Forall₂ E s t) (i : Nat) : Option.Rel E s[i]? t[i]? := by
  induction h generalizing i with
  | nil => exact .none
  | cons h _ ih =>
    cases i with
    | zero => exact .some h
    | succ i => exact ih i

theorem forall₂_eraseIdx {α β : Type} {E : α → β → Prop} {s : List α} {t : List β}
    (h : List.Forall₂ E s t) (i : Nat) : List.Forall₂ E (s.eraseIdx i) (t.eraseIdx i) := by
  rw [List.eraseIdx_eq_take_drop_succ, List.eraseIdx_eq_take_drop_succ]
  exact List.rel_append (List.forall₂_take i h) (List.forall₂_drop (i + 1) h)

/-- A rearrangement moves elements without looking at them. -/
theorem forall₂_rearranged? {α β : Type} {E : α → β → Prop} (m : Move) {s : List α} {t : List β}
    (h : List.Forall₂ E s t) : Option.Rel (List.Forall₂ E) (m.rearranged? s) (m.rearranged? t) := by
  cases m <;>
    rcases h with _ | ⟨h₁, _ | ⟨h₂, _ | ⟨h₃, _ | ⟨h₄, _ | ⟨h₅, _ | ⟨h₆, h⟩⟩⟩⟩⟩⟩ <;>
    simp [Move.rearranged?, *]

variable {E : Element → Element → Prop} {c d : List Bool}

theorem Alike.related_depth : Action.Related False (Alike E c d) Eq Action.depth Action.depth :=
  fun _ _ h => .ok h.main.length_eq h

theorem Alike.related_pick (remove : Bool) (n : Int) :
    Action.Related False (Alike E c d) E (Action.pick remove n) (Action.pick remove n) := by
  intro s t h
  unfold Action.pick
  rw [h.main.length_eq]
  by_cases hn : n < 0
  · simp only [if_pos hn]
    exact .error h
  · simp only [if_neg hn]
    have hi := forall₂_getElem? h.main n.toNat
    generalize s.main[n.toNat]? = a at hi ⊢
    generalize t.main[n.toNat]? = b at hi ⊢
    cases hi with
    | none => exact .error h
    | some hab =>
      refine .ok hab ?_
      cases remove
      · exact h
      · exact ⟨forall₂_eraseIdx h.main _, h.alt, h.left, h.right⟩

theorem Alike.related_rearrange (m : Move) :
    Action.Related False (Alike E c d) Eq (Action.rearrange m) (Action.rearrange m) := by
  intro s t h
  unfold Action.rearrange
  have hm := forall₂_rearranged? m h.main
  generalize m.rearranged? s.main = a at hm ⊢
  generalize m.rearranged? t.main = b at hm ⊢
  cases hm with
  | none => exact .error h
  | some hab => exact .ok rfl ⟨hab, h.alt, h.left, h.right⟩

/-- Actions do the same on stacks that agree element by element. -/
theorem Alike.respected (bytes : ∀ {a b}, E a b → a.bytes = b.bytes)
    (refl : ∀ a, a.text? = none → E a a) :
    Action.Respected False (Alike E c d) E where
  bytes := bytes
  refl := refl
  push := fun hab _ _ h => .ok rfl ⟨.cons hab h.main, h.alt, h.left, h.right⟩
  pop := fun s t h => by
    unfold Action.pop
    rcases hs : s.main, ht : t.main, h.main with ⟨_, _, _ | ⟨hab, hrest⟩⟩
    · exact .error h
    · exact .ok hab ⟨hrest, h.alt, h.left, h.right⟩
  top := fun s t h => by
    unfold Action.top
    rcases hs : s.main, ht : t.main, h.main with ⟨_, _, _ | ⟨hab, hrest⟩⟩
    · exact .error h
    · exact .ok hab h
  pick := Alike.related_pick
  rearrange := Alike.related_rearrange
  toAlt := fun hab _ _ h => .ok rfl ⟨h.main, .cons hab h.alt, h.left, h.right⟩
  fromAlt := fun s t h => by
    unfold Action.fromAlt
    rcases hs : s.alt, ht : t.alt, h.alt with ⟨_, _, _ | ⟨hab, hrest⟩⟩
    · exact .error h
    · exact .ok hab ⟨h.main, hrest, h.left, h.right⟩

/-! ### The same conditions on both sides -/

/-- Related elements on both stacks, under the same conditions. -/
def Matched (E : Element → Element → Prop) (s t : Stacks) : Prop := ∃ c, Alike E c c s t

namespace Matched
variable {α β : Type} {A : α → β → Prop} {x : Action α} {y : Action β}

/-- What holds under any conditions holds under the same on both sides. -/
theorem related_of_alike (h : ∀ c, Action.Related False (Alike E c c) A x y) :
    Action.Related False (Matched E) A x y := by
  intro s t ⟨c, hst⟩
  have hagrees := h c s t hst
  generalize x s = a at hagrees ⊢
  generalize y t = b at hagrees ⊢
  cases hagrees with
  | ok hab h => exact .ok hab ⟨c, h⟩
  | error h => exact .error ⟨c, h⟩
  | excused h => exact h.elim

theorem respected (bytes : ∀ {a b}, E a b → a.bytes = b.bytes)
    (refl : ∀ a, a.text? = none → E a a) :
    Action.Respected False (Matched E) E :=
  have H c : Action.Respected False (Alike E c c) E := Alike.respected bytes refl
  { bytes := bytes
    refl := refl
    push := fun hab => related_of_alike fun c => (H c).push hab
    pop := related_of_alike fun c => (H c).pop
    top := related_of_alike fun c => (H c).top
    pick := fun remove n => related_of_alike fun c => (H c).pick remove n
    rearrange := fun m => related_of_alike fun c => (H c).rearrange m
    toAlt := fun hab => related_of_alike fun c => (H c).toAlt hab
    fromAlt := related_of_alike fun c => (H c).fromAlt }

theorem respectedBlocks : Action.RespectedBlocks False (Matched E) where
  executing := fun s t ⟨c, h⟩ => by
    refine .ok ?_ ⟨c, h⟩
    rw [Stacks.executing, Stacks.executing, h.left, h.right]
  openBlock := fun b s t ⟨c, h⟩ =>
    .ok rfl ⟨b :: c, h.main, h.alt, congrArg (b :: ·) h.left, congrArg (b :: ·) h.right⟩
  turnBlock := fun s t ⟨c, h⟩ => by
    unfold Action.turnBlock
    rw [h.left, h.right]
    cases c with
    | nil => exact .error ⟨[], h⟩
    | cons b rest => exact .ok rfl ⟨(!b) :: rest, h.main, h.alt, rfl, rfl⟩
  closeBlock := fun s t ⟨c, h⟩ => by
    unfold Action.closeBlock
    rw [h.left, h.right]
    cases c with
    | nil => exact .error ⟨[], h⟩
    | cons b rest => exact .ok rfl ⟨rest, h.main, h.alt, rfl, rfl⟩

/-- Every operation does the same on both sides. -/
theorem related_runInPlace (bytes : ∀ {a b}, E a b → a.bytes = b.bytes)
    (refl : ∀ a, a.text? = none → E a a) (t : Option Template) (op : Operation) :
    Action.Related False (Matched E) Eq (op.runInPlace t) (op.runInPlace t) :=
  (respected bytes refl).runInPlace respectedBlocks t op
    fun _ => related_of_alike fun _ => Alike.related_depth

end Matched

end Stacks

end ScriptBench
