import Mathlib.Logic.Basic
import ScriptBench.Debouncer

/-! A debouncer holds the last value scheduled, and nothing else.

A history is what was asked of a debouncer, with the answers. It says by itself which value
waits: the last one scheduled, unless a cancel, a flush or a successful poll came after it.
The debouncer keeps one slot instead of the history, and `Holds.run` says that the slot always
agrees with it; what the calls answer follows, and so does what they can never hand out.

On a clock that ends, there is no answer to a value that would be due after the end. `run?` goes
through the calls on such a clock, and is `run` for all histories without such a value. -/
namespace ScriptBench.Debouncer

variable {α : Type}

/-- What can be asked of a debouncer, at any time. -/
inductive Call (α : Type) where
  | schedule (value : α) (now : Nat)
  | poll (now : Nat)
  | flush
  | cancel
  | isPending
  | timeUntilDue (now : Nat)

/-- A call with its answer. -/
inductive Exchange (α : Type) where
  | schedule (value : α) (now : Nat)
  | poll (now : Nat) (released : Option α)
  | flush (released : Option α)
  | cancel
  | isPending (answer : Bool)
  | timeUntilDue (now : Nat) (answer : Option Nat)

/-- What a debouncer answers. -/
def answer (d : Debouncer α) : Call α → Exchange α
  | .schedule value now => .schedule value now
  | .poll now => .poll now (d.poll now).1
  | .flush => .flush d.flush.1
  | .cancel => .cancel
  | .isPending => .isPending d.isPending
  | .timeUntilDue now => .timeUntilDue now (d.timeUntilDue now)

/-- The debouncer after a call. -/
def next (d : Debouncer α) : Call α → Debouncer α
  | .schedule value now => d.schedule value now
  | .poll now => (d.poll now).2
  | .flush => d.flush.2
  | .cancel => d.cancel
  | .isPending => d
  | .timeUntilDue _ => d

def run (d : Debouncer α) : List (Call α) → Debouncer α
  | [] => d
  | c :: rest => run (d.next c) rest

/-- The debouncer after a call, on a clock that shows no time after `last`. -/
def next? (last : Nat) (d : Debouncer α) : Call α → Option (Debouncer α)
  | .schedule value now => d.schedule? last value now
  | c => some (d.next c)

def run? (last : Nat) (d : Debouncer α) : List (Call α) → Option (Debouncer α)
  | [] => some d
  | c :: rest => do run? last (← next? last d c) rest

/-- The calls with their answers. -/
def history (d : Debouncer α) : List (Call α) → List (Exchange α)
  | [] => []
  | c :: rest => d.answer c :: history (d.next c) rest

namespace Exchange

/-- The value that is handed out. -/
def released? : Exchange α → Option α
  | poll _ released => released
  | flush released => released
  | _ => none

/-- Whether the value that waited before waits no longer: another one is scheduled, or it is
cancelled, flushed or successfully polled. -/
def Ends : Exchange α → Prop
  | schedule .. | flush _ | cancel | poll _ (some _) => True
  | _ => False

theorem ends_of_released? {e : Exchange α} {v : α} (h : e.released? = some v) : e.Ends := by
  cases e with
  | poll now released =>
    obtain rfl : released = some v := h
    trivial
  | flush released => trivial
  | _ => cases h

end Exchange

/-- The value that waits after a history: call number `i` scheduled it, and nothing since then
has ended its wait. -/
structure Waits (seen : List (Exchange α)) (i : Nat) (v : α) (time : Nat) : Prop where
  scheduled : seen[i]? = some (.schedule v time)
  last : ∀ k e, i < k → seen[k]? = some e → ¬ e.Ends

/-! ### Histories, call by call -/

section Histories
variable {d : Debouncer α} {seen : List (Exchange α)} {e : Exchange α} {i j : Nat} {v w : α}
  {t u : Nat}

theorem Waits.lt_length (h : Waits seen i v t) : i < seen.length :=
  (List.getElem?_eq_some_iff.mp h.scheduled).1

theorem not_waits_nil : ¬ Waits [] i v t := fun h => by cases h.scheduled

/-- At most one value waits. -/
theorem Waits.unique (h : Waits seen i v t) (h' : Waits seen j w u) : i = j ∧ v = w ∧ t = u := by
  have hij : ¬ i < j := fun hlt => h.last j _ hlt h'.scheduled trivial
  have hji : ¬ j < i := fun hlt => h'.last i _ hlt h.scheduled trivial
  obtain rfl : i = j := by omega
  have heq := h.scheduled.symm.trans h'.scheduled
  cases heq
  exact ⟨rfl, rfl, rfl⟩

/-- What waits after one more exchange has just been scheduled there, or it waited before and
still does. -/
theorem waits_concat_iff : Waits (seen ++ [e]) i v t ↔
    (i = seen.length ∧ e = .schedule v t) ∨ (Waits seen i v t ∧ ¬ e.Ends) := by
  constructor
  · intro h
    have hi := h.lt_length
    rw [List.length_append, List.length_singleton] at hi
    by_cases hlast : i = seen.length
    · have hscheduled := h.scheduled
      rw [hlast, List.getElem?_concat_length] at hscheduled
      exact .inl ⟨hlast, Option.some.inj hscheduled⟩
    · have hlt : i < seen.length := by omega
      refine .inr ⟨⟨?_, fun k f hk hf => ?_⟩, ?_⟩
      · rw [← List.getElem?_append_left hlt]
        exact h.scheduled
      · refine h.last k f hk ?_
        rwa [List.getElem?_append_left (List.getElem?_eq_some_iff.mp hf).1]
      · exact h.last seen.length e hlt List.getElem?_concat_length
  · rintro (⟨rfl, rfl⟩ | ⟨h, he⟩)
    · refine ⟨List.getElem?_concat_length, fun k f hk hf => ?_⟩
      have hlt := (List.getElem?_eq_some_iff.mp hf).1
      rw [List.length_append, List.length_singleton] at hlt
      omega
    · refine ⟨?_, fun k f hk hf => ?_⟩
      · rw [List.getElem?_append_left h.lt_length]
        exact h.scheduled
      · by_cases hlt : k < seen.length
        · rw [List.getElem?_append_left hlt] at hf
          exact h.last k f hk hf
        · have hle := (List.getElem?_eq_some_iff.mp hf).1
          rw [List.length_append, List.length_singleton] at hle
          obtain rfl : k = seen.length := by omega
          rw [List.getElem?_concat_length] at hf
          cases hf
          exact he

/-! ### The slot and the history -/

/-- The slot holds what waits, with the time at which it is due. -/
structure Holds (delay : Nat) (seen : List (Exchange α)) (d : Debouncer α) : Prop where
  quiet : d.delay = delay
  pending : ∀ due v, d.pending = some (due, v) ↔ ∃ i t, Waits seen i v t ∧ due = t + delay

variable {delay : Nat}

/-- After an exchange that ends the wait and schedules nothing, the slot is empty. -/
theorem Holds.ended (h : Holds delay seen d) (he : e.Ends) (hnot : ∀ v t, e ≠ .schedule v t) :
    Holds delay (seen ++ [e]) d.cancel where
  quiet := h.quiet
  pending := fun due v => by
    constructor
    · intro hp
      cases hp
    · rintro ⟨i, t, hwaits, -⟩
      obtain ⟨-, hscheduled⟩ | ⟨-, hends⟩ := waits_concat_iff.mp hwaits
      · exact absurd hscheduled (hnot v t)
      · exact absurd he hends

/-- An exchange that does not end the wait leaves the slot as it is. -/
theorem Holds.kept (h : Holds delay seen d) (he : ¬ e.Ends) : Holds delay (seen ++ [e]) d where
  quiet := h.quiet
  pending := fun due v => by
    rw [h.pending]
    have hwaits (i t : Nat) : Waits (seen ++ [e]) i v t ↔ Waits seen i v t := by
      rw [waits_concat_iff]
      constructor
      · rintro (⟨-, rfl⟩ | ⟨hwaits, -⟩)
        · exact absurd trivial he
        · exact hwaits
      · exact fun hwaits => .inr ⟨hwaits, he⟩
    simp only [hwaits]

theorem Holds.scheduled (h : Holds delay seen d) (v : α) (now : Nat) :
    Holds delay (seen ++ [.schedule v now]) (d.schedule v now) where
  quiet := h.quiet
  pending := fun due w => by
    have hslot : (d.schedule v now).pending = some (now + delay, v) := by
      rw [schedule, h.quiet]
    rw [hslot]
    constructor
    · intro hp
      cases hp
      exact ⟨seen.length, now, waits_concat_iff.mpr (.inl ⟨rfl, rfl⟩), rfl⟩
    · rintro ⟨i, t, hwaits, rfl⟩
      obtain ⟨-, hscheduled⟩ | ⟨-, hends⟩ := waits_concat_iff.mp hwaits
      · cases hscheduled
        rfl
      · exact absurd trivial hends

/-- A poll hands out what is due and empties the slot, or it finds nothing due. -/
theorem poll_cases (d : Debouncer α) (now : Nat) :
    (∃ due v, d.pending = some (due, v) ∧ due ≤ now ∧ d.poll now = (some v, d.cancel)) ∨
      ((∀ due v, d.pending = some (due, v) → now < due) ∧ d.poll now = (none, d)) := by
  unfold poll
  cases hp : d.pending with
  | none => exact .inr ⟨nofun, rfl⟩
  | some waiting =>
    obtain ⟨due, v⟩ := waiting
    by_cases hdue : due ≤ now
    · exact .inl ⟨due, v, rfl, hdue, by simp [hdue, flush, hp]⟩
    · refine .inr ⟨fun due' v' h => ?_, by simp [hdue]⟩
      cases h
      omega

theorem Holds.next (h : Holds delay seen d) (c : Call α) :
    Holds delay (seen ++ [d.answer c]) (d.next c) := by
  cases c with
  | schedule v now => exact h.scheduled v now
  | poll now =>
    simp only [answer, Debouncer.next]
    obtain ⟨due, v, -, -, hpoll⟩ | ⟨-, hpoll⟩ := d.poll_cases now
    · rw [hpoll]
      exact h.ended trivial nofun
    · rw [hpoll]
      exact h.kept id
  | flush => exact h.ended trivial nofun
  | cancel => exact h.ended trivial nofun
  | isPending => exact h.kept id
  | timeUntilDue now => exact h.kept id

theorem Holds.run (h : Holds delay seen d) (calls : List (Call α)) :
    Holds delay (seen ++ d.history calls) (d.run calls) := by
  induction calls generalizing seen d with
  | nil =>
    rw [history, List.append_nil]
    exact h
  | cons c rest ih =>
    have hrest := ih (h.next c)
    rwa [List.append_assoc] at hrest

theorem holds_new (delay : Nat) : Holds delay [] (new delay : Debouncer α) where
  quiet := rfl
  pending := fun due v => by
    constructor
    · intro hp
      cases hp
    · rintro ⟨i, t, hwaits, -⟩
      exact absurd hwaits not_waits_nil

/-! ### Answers -/

theorem Holds.poll_iff (h : Holds delay seen d) (now : Nat) (v : α) :
    (d.poll now).1 = some v ↔ ∃ i t, Waits seen i v t ∧ t + delay ≤ now := by
  obtain ⟨due, w, hp, hdue, hpoll⟩ | ⟨hlate, hpoll⟩ := d.poll_cases now
  · obtain ⟨i, t, hwaits, rfl⟩ := (h.pending due w).mp hp
    rw [hpoll]
    constructor
    · intro heq
      cases heq
      exact ⟨i, t, hwaits, hdue⟩
    · rintro ⟨j, u, hwaits', -⟩
      rw [(hwaits.unique hwaits').2.1]
  · rw [hpoll]
    constructor
    · intro heq
      cases heq
    · rintro ⟨i, t, hwaits, hdue⟩
      have hlt := hlate _ v ((h.pending _ v).mpr ⟨i, t, hwaits, rfl⟩)
      omega

theorem Holds.flush_iff (h : Holds delay seen d) (v : α) :
    d.flush.1 = some v ↔ ∃ i t, Waits seen i v t := by
  rw [flush, Option.map_eq_some_iff]
  constructor
  · rintro ⟨⟨due, w⟩, hp, rfl⟩
    obtain ⟨i, t, hwaits, -⟩ := (h.pending due w).mp hp
    exact ⟨i, t, hwaits⟩
  · rintro ⟨i, t, hwaits⟩
    exact ⟨_, (h.pending _ v).mpr ⟨i, t, hwaits, rfl⟩, rfl⟩

theorem Holds.isPending_iff (h : Holds delay seen d) :
    d.isPending = true ↔ ∃ i v t, Waits seen i v t := by
  rw [isPending, Option.isSome_iff_exists]
  constructor
  · rintro ⟨⟨due, v⟩, hp⟩
    obtain ⟨i, t, hwaits, -⟩ := (h.pending due v).mp hp
    exact ⟨i, v, t, hwaits⟩
  · rintro ⟨i, v, t, hwaits⟩
    exact ⟨_, (h.pending _ v).mpr ⟨i, t, hwaits, rfl⟩⟩

theorem Holds.timeUntilDue_iff (h : Holds delay seen d) (now wait : Nat) :
    d.timeUntilDue now = some wait ↔ ∃ i v t, Waits seen i v t ∧ wait = t + delay - now := by
  rw [timeUntilDue, Option.map_eq_some_iff]
  constructor
  · rintro ⟨⟨due, v⟩, hp, rfl⟩
    obtain ⟨i, t, hwaits, rfl⟩ := (h.pending due v).mp hp
    exact ⟨i, v, t, hwaits, rfl⟩
  · rintro ⟨i, v, t, hwaits, rfl⟩
    exact ⟨_, (h.pending _ v).mpr ⟨i, t, hwaits, rfl⟩, rfl⟩

/-- A poll succeeds when the time until the value is due has run down to nothing. -/
theorem isSome_poll_iff (d : Debouncer α) (now : Nat) :
    (d.poll now).1.isSome = true ↔ d.timeUntilDue now = some 0 := by
  rw [timeUntilDue, Option.map_eq_some_iff]
  obtain ⟨due, v, hp, hdue, hpoll⟩ | ⟨hlate, hpoll⟩ := d.poll_cases now
  · rw [hpoll]
    exact iff_of_true rfl ⟨(due, v), hp, Nat.sub_eq_zero_of_le hdue⟩
  · rw [hpoll]
    refine iff_of_false (by simp) ?_
    rintro ⟨⟨due, v⟩, hp, hwait⟩
    have hlt := hlate due v hp
    simp only at hwait
    omega

/-! ### Releases -/

/-- What a call hands out is the value that waits. -/
theorem Holds.waits_of_released (h : Holds delay seen d) {c : Call α}
    (hv : (d.answer c).released? = some v) : ∃ i t, Waits seen i v t := by
  cases c with
  | poll now =>
    obtain ⟨i, t, hwaits, -⟩ := (h.poll_iff now v).mp hv
    exact ⟨i, t, hwaits⟩
  | flush => exact (h.flush_iff v).mp hv
  | _ => cases hv

theorem Holds.exists_waits (h : Holds delay seen d) {calls : List (Call α)}
    {before : List (Exchange α)} (hbefore : before ++ [e] <+: d.history calls)
    (hv : e.released? = some v) : ∃ i t, Waits (seen ++ before) i v t := by
  induction calls generalizing seen d before with
  | nil => simp [history] at hbefore
  | cons c rest ih =>
    cases before with
    | nil =>
      obtain ⟨rfl, -⟩ := List.cons_prefix_cons.mp hbefore
      rw [List.append_nil]
      exact h.waits_of_released hv
    | cons f before =>
      obtain ⟨rfl, hrest⟩ := List.cons_prefix_cons.mp hbefore
      have hwaits := ih (h.next c) hrest
      rwa [List.append_assoc] at hwaits

/-- What is released later was scheduled later: the earlier release ended the wait of its own
value, so that of the later one began after it. -/
theorem lt_of_released {before after : List (Exchange α)} (hbegins : before ++ [e] <+: after)
    (hv : e.released? = some v) (hwaits : Waits before i v t) (hwaits' : Waits after j w u) :
    i < j := by
  have hat : after[before.length]? = some e := by
    obtain ⟨rest, rfl⟩ := hbegins
    simp
  have hi := hwaits.lt_length
  by_cases hj : j < before.length
  · exact absurd (Exchange.ends_of_released? hv) (hwaits'.last _ e hj hat)
  · omega

/-- Releases come in the order of their values, and every release has a value of its own. -/
theorem released_order {all before after : List (Exchange α)} {f : Exchange α}
    (hbefore : before ++ [e] <+: all) (hafter : after ++ [f] <+: all)
    (hv : e.released? = some v) (hw : f.released? = some w) (hwaits : Waits before i v t)
    (hwaits' : Waits after j w u) : i < j ↔ before.length < after.length := by
  have hbegins {a b : List (Exchange α)} {x y : Exchange α} (ha : a ++ [x] <+: all)
      (hb : b ++ [y] <+: all) (hlt : a.length < b.length) : a ++ [x] <+: b :=
    List.prefix_of_prefix_length_le ha ((List.prefix_append ..).trans hb) (by simp; omega)
  rcases Nat.lt_trichotomy before.length after.length with hlt | heq | hgt
  · exact iff_of_true (lt_of_released (hbegins hbefore hafter hlt) hv hwaits hwaits') hlt
  · have hsame : before = after :=
      (List.prefix_of_prefix_length_le ((List.prefix_append ..).trans hbefore)
        ((List.prefix_append ..).trans hafter) (Nat.le_of_eq heq)).eq_of_length heq
    subst hsame
    rw [(hwaits.unique hwaits').1]
    exact iff_of_false (Nat.lt_irrefl _) (Nat.lt_irrefl _)
  · have hback := lt_of_released (hbegins hafter hbefore hgt) hw hwaits' hwaits
    exact iff_of_false (Nat.lt_asymm hback) (Nat.lt_asymm hgt)

end Histories

/-! ### Clocks that end -/

section Clock
variable {last : Nat} {d e : Debouncer α}

/-- The time at which the value of a call would be due is one that the clock shows. -/
def Call.InTime (last delay : Nat) : Call α → Prop
  | .schedule _ now => now + delay ≤ last
  | _ => True

theorem delay_next (d : Debouncer α) (c : Call α) : (d.next c).delay = d.delay := by
  cases c with
  | poll now =>
    obtain ⟨due, v, -, -, hpoll⟩ | ⟨-, hpoll⟩ := d.poll_cases now
    · exact congrArg (·.2.delay) hpoll
    · exact congrArg (·.2.delay) hpoll
  | _ => rfl

theorem next?_eq_some_iff {c : Call α} :
    next? last d c = some e ↔ c.InTime last d.delay ∧ d.next c = e := by
  cases c with
  | schedule v now =>
    show (if now + d.delay ≤ last then some (d.schedule v now) else none) = some e ↔ _
    rw [Option.ite_none_right_eq_some, Option.some.injEq]
    rfl
  | _ => exact Option.some_inj.trans (and_iff_right trivial).symm

/-- On a clock that ends, the calls go as they do without an end, as long as the clock shows the
times that they need. -/
theorem run?_eq_some_iff {calls : List (Call α)} :
    run? last d calls = some e ↔ (∀ c ∈ calls, c.InTime last d.delay) ∧ d.run calls = e := by
  induction calls generalizing d with
  | nil => exact Option.some_inj.trans (and_iff_right nofun).symm
  | cons c rest ih =>
    rw [run?, Option.bind_eq_bind, Option.bind_eq_some_iff]
    simp only [next?_eq_some_iff, ih, List.forall_mem_cons]
    constructor
    · rintro ⟨_, ⟨hc, rfl⟩, hrest, hrun⟩
      rw [delay_next] at hrest
      exact ⟨⟨hc, hrest⟩, hrun⟩
    · rintro ⟨⟨hc, hrest⟩, hrun⟩
      refine ⟨_, ⟨hc, rfl⟩, ?_, hrun⟩
      rwa [delay_next]

theorem run?_eq_none_iff {calls : List (Call α)} :
    run? last d calls = none ↔ ∃ v now, Call.schedule v now ∈ calls ∧ last < now + d.delay := by
  have hsome : run? last d calls ≠ none ↔ ∀ c ∈ calls, c.InTime last d.delay := by
    rw [Option.ne_none_iff_exists']
    simp only [run?_eq_some_iff, exists_and_left, exists_eq', and_true]
  refine not_iff_not.mp (hsome.trans ?_)
  constructor
  · rintro h ⟨v, now, hmem, hlate⟩
    exact Nat.not_le_of_lt hlate (h _ hmem)
  · intro h c hc
    cases c with
    | schedule v now => exact Nat.le_of_not_lt fun hlate => h ⟨v, now, hc, hlate⟩
    | _ => trivial

end Clock

/-- What a debouncer does after a history, and what it has released on the way. -/
structure LastWriteWins (delay : Nat) (seen : List (Exchange α)) (d : Debouncer α) : Prop where
  /-- There is at most one value that waits. -/
  unique : ∀ i j v w t u, Waits seen i v t → Waits seen j w u → i = j ∧ v = w ∧ t = u
  /-- A poll hands out the value that waits once it is due, and otherwise nothing. -/
  poll : ∀ now v, (d.poll now).1 = some v ↔ ∃ i t, Waits seen i v t ∧ t + delay ≤ now
  /-- A flush hands it out, due or not. -/
  flush : ∀ v, d.flush.1 = some v ↔ ∃ i t, Waits seen i v t
  isPending : d.isPending = true ↔ ∃ i v t, Waits seen i v t
  timeUntilDue : ∀ now wait,
    d.timeUntilDue now = some wait ↔ ∃ i v t, Waits seen i v t ∧ wait = t + delay - now
  due : ∀ now, (d.poll now).1.isSome = true ↔ d.timeUntilDue now = some 0
  /-- Whatever was released had been waiting until then, so it was neither superseded nor
  cancelled. -/
  source : ∀ before e v, before ++ [e] <+: seen → e.released? = some v →
    ∃ i t, Waits before i v t
  /-- Releases come in the order in which their values were scheduled, and no call's value is
  released twice. -/
  order : ∀ before after e f v w i j t u, before ++ [e] <+: seen → after ++ [f] <+: seen →
    e.released? = some v → f.released? = some w → Waits before i v t → Waits after j w u →
    (i < j ↔ before.length < after.length)

theorem lastWriteWins_run (delay : Nat) (calls : List (Call α)) :
    LastWriteWins delay ((new delay).history calls) ((new delay).run calls) := by
  have hnew := holds_new (α := α) delay
  have h := hnew.run calls
  rw [List.nil_append] at h
  exact {
    unique := fun i j v w t u hwaits hwaits' => hwaits.unique hwaits'
    poll := h.poll_iff
    flush := h.flush_iff
    isPending := h.isPending_iff
    timeUntilDue := h.timeUntilDue_iff
    due := isSome_poll_iff _
    source := fun before e v hbefore hv => hnew.exists_waits hbefore hv
    order := fun _ _ _ _ _ _ _ _ _ _ hbefore hafter hv hw hwaits hwaits' =>
      released_order hbefore hafter hv hw hwaits hwaits' }

/-- **The last value scheduled wins,** whatever is asked of a debouncer and at what times, as long
as the clock shows the times at which the values are due. -/
theorem run_lastWriteWins (last delay : Nat) (calls : List (Call α)) :
    (run? last (new delay) calls = none ↔
      ∃ v now, Call.schedule v now ∈ calls ∧ last < now + delay) ∧
    ∀ d, run? last (new delay) calls = some d →
      LastWriteWins delay ((new delay).history calls) d := by
  refine ⟨run?_eq_none_iff, fun d hd => ?_⟩
  rw [← (run?_eq_some_iff.mp hd).2]
  exact lastWriteWins_run delay calls

/-- A value waits in the place of an earlier one, up to the last time that the clock shows; a later
one would be due after it. -/
theorem run_lastWriteWins_superseded :
    let calls : List (Call Char) := [.schedule 'a' 700, .poll 900, .schedule 'b' 750]
    run? 1000 (new 250) (calls ++ [.schedule 'c' 751]) = none ∧
    ∃ d, run? 1000 (new 250) calls = some d ∧
      (d.poll 999).1 = none ∧ (d.poll 1000).1 = some 'b' ∧ d.flush.1 = some 'b' := by
  intro calls
  have hlate := (run_lastWriteWins 1000 250 (calls ++ [.schedule 'c' 751])).1
  obtain ⟨-, hwins⟩ := run_lastWriteWins 1000 250 calls
  have hd : run? 1000 (new 250) calls = some ⟨250, some (1000, 'b')⟩ := by decide
  have hwaits : Waits ((new 250).history calls) 2 'b' 750 :=
    ⟨rfl, fun k e hk he => absurd (List.getElem?_eq_some_iff.mp he).1 (Nat.not_lt_of_le hk)⟩
  refine ⟨hlate.mpr ⟨'c', 751, by simp [calls], by decide⟩, _, hd, rfl, ?_, ?_⟩
  · exact ((hwins _ hd).poll 1000 'b').mpr ⟨2, 750, hwaits, by decide⟩
  · exact ((hwins _ hd).flush 'b').mpr ⟨2, 750, hwaits⟩

end ScriptBench.Debouncer
