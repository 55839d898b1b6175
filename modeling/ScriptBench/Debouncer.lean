/-! A gate that holds back the last of several values.

A value is released once nothing has been scheduled for the length of the delay;
scheduling again replaces it and starts the delay anew. Times are in milliseconds. -/
namespace ScriptBench

structure Debouncer (α : Type) where
  delay : Nat
  /-- The value held back, with the time at which it is due. -/
  pending : Option (Nat × α)
deriving DecidableEq, Repr

namespace Debouncer

variable {α : Type}

/-- The quiet time after an edit. -/
def standardDelay : Nat := 250

def new (delay : Nat) : Debouncer α := ⟨delay, none⟩

def schedule (d : Debouncer α) (value : α) (now : Nat) : Debouncer α :=
  { d with pending := some (now + d.delay, value) }

/-- Schedules a value on a clock that shows no time after `last`: a value that would be
due later is not scheduled. -/
def schedule? (last : Nat) (d : Debouncer α) (value : α) (now : Nat) : Option (Debouncer α) :=
  if now + d.delay ≤ last then some (d.schedule value now) else none

def cancel (d : Debouncer α) : Debouncer α := { d with pending := none }

/-- Takes the value, due or not. -/
def flush (d : Debouncer α) : Option α × Debouncer α := (d.pending.map (·.2), d.cancel)

/-- Takes the value if it is due. -/
def poll (d : Debouncer α) (now : Nat) : Option α × Debouncer α :=
  if d.pending.any (·.1 ≤ now) then d.flush else (none, d)

def isPending (d : Debouncer α) : Bool := d.pending.isSome

/-- How long the value has still to wait; zero once it is due. -/
def timeUntilDue (d : Debouncer α) (now : Nat) : Option Nat := d.pending.map (·.1 - now)

end Debouncer

end ScriptBench
