import ScriptBench.Proofs.Bytes.Slice
import ScriptBench.Proofs.Machine.Outcomes

/-! Splices undo joins.

`OP_CAT` joins the two elements on top in the order in which they were pushed, unless they are
longer than an element may be. The splice opcodes read their indices off the top, clamp or refuse
what reaches beyond an element, and cut out of a joined element the very parts that it was made
of. With every index checked they do the same. -/
namespace ScriptBench

/-- An element that is read as an index: in four bytes at most, a number that is not negative. -/
def Element.Indexes (e : Element) (n : Nat) : Prop := Number.decode? 4 e.bytes = some (n : Int)

theorem Element.indexes_number {n : Nat} (h : n < 2 ^ 31) : (number n).Indexes n := by
  have hsize : (Number.encode n).length ≤ 4 := size_number_le (n := n) h
  rw [Indexes, bytes, Number.decode?_encode]
  exact if_pos hsize

theorem Action.popIndex_of_indexes {e : Element} {n : Nat} (h : e.Indexes n)
    (rest alt : List Element) (conditions : List Bool) :
    popIndex ⟨e :: rest, alt, conditions⟩ = .ok n ⟨rest, alt, conditions⟩ := by
  obtain ⟨⟨hsize, -⟩, hvalue⟩ := Option.ite_none_right_eq_some.mp h
  have hpop := reads_popNumber.ok (e := e) hsize rest alt conditions
  rw [Option.some.inj hvalue] at hpop
  refine (bind_ok hpop).trans ?_
  rw [if_neg (Int.not_lt.mpr (Int.natCast_nonneg n))]
  rfl

/-! ### Operations -/

namespace Operation
variable (t : Option Template) (d : Element) (rest alt : List Element) (conditions : List Bool)

theorem run_cat (b a : Element) :
    cat.run t ⟨b :: a :: rest, alt, conditions⟩ =
      if a.size + b.size ≤ 520 then .ok () ⟨.raw (a.bytes ++ b.bytes) :: rest, alt, conditions⟩
      else .error (.elementSize (a.size + b.size) 520) ⟨rest, alt, conditions⟩ := by
  show Action.pushJoined (a.bytes ++ b.bytes) ⟨rest, alt, conditions⟩ = _
  have hlength : (a.bytes ++ b.bytes).length = a.size + b.size := List.length_append
  rw [← hlength]
  unfold Action.pushJoined Element.maxSize
  split <;> rfl

theorem run_slice {size start : Element} {b s : Nat} (hstart : start.Indexes b)
    (hsize : size.Indexes s) :
    slice.run t ⟨size :: start :: d :: rest, alt, conditions⟩ =
      if b + s ≤ d.size then
        .ok () ⟨.raw ((d.bytes.drop b).take s) :: rest, alt, conditions⟩
      else .error (.operand (.byteRange b (b + s) d.size)) ⟨rest, alt, conditions⟩ := by
  refine (Action.bind_ok (Action.popIndex_of_indexes hsize ..)).trans ?_
  refine (Action.bind_ok (Action.popIndex_of_indexes hstart ..)).trans ?_
  have hpop : Action.pop ⟨d :: rest, alt, conditions⟩ = .ok d ⟨rest, alt, conditions⟩ := rfl
  refine (Action.bind_ok hpop).trans ?_
  split <;> rfl

theorem run_keep (fromEnd : Bool) {count : Element} {n : Nat} (hcount : count.Indexes n) :
    (keep fromEnd).run t ⟨count :: d :: rest, alt, conditions⟩ =
      .ok () ⟨.raw (if fromEnd then d.bytes.drop (d.size - n) else d.bytes.take n) :: rest,
        alt, conditions⟩ :=
  Action.bind_ok (Action.popIndex_of_indexes hcount ..)

end Operation

/-! ### Checked indices -/

namespace Action

/-- Whatever an action returns is such a value. -/
def Returns {α : Type} (x : Action α) (p : α → Prop) : Prop := ∀ s a s', x s = .ok a s' → p a

/-- What follows an action only matters on what it returns. -/
theorem Returns.bind_congr {α β : Type} {x : Action α} {p : α → Prop} (hx : x.Returns p)
    {f g : α → Action β} (h : ∀ a, p a → f a = g a) : x >>= f = x >>= g := by
  funext s
  show EStateM.bind x f s = EStateM.bind x g s
  unfold EStateM.bind
  cases hs : x s with
  | ok a s' =>
    show f a s' = g a s'
    rw [h a (hx s a s' hs)]
  | error fault s' => rfl

/-- An index is read out of four bytes. -/
theorem returns_popIndex : popIndex.Returns (· < 2 ^ 31) := by
  intro s a s' h
  obtain ⟨_ | ⟨e, rest⟩, alt, conditions⟩ := s
  · cases h
  by_cases he : e.size ≤ 4
  · have hvalue := natAbs_value_lt_of_size he
    rw [popIndex, bind_ok (reads_popNumber.ok he rest alt conditions)] at h
    split at h
    · cases h
    · cases h
      omega
  · rw [popIndex, bind_error (reads_popNumber.error he rest alt conditions)] at h
    cases h

end Action

namespace Operation
variable {e : Element}

/-- The largest index, of 64 bits. -/
def maxIndex : Nat := 2 ^ 64 - 1

/-- The cut of a range, which ends at the largest index at most, with the range checked once more
as the bytes are read: there is no result where it is not in order or ends beyond them. -/
def runSlice? : Action (Option Unit) := do
  let size ← Action.popIndex
  let start ← Action.popIndex
  let e ← Action.pop
  let stop := min (start + size) maxIndex
  if stop ≤ e.size then (e.bytes.slice? start stop).mapM Action.pushBytes
  else Action.refuse (.byteRange start stop e.size)

/-- The bytes kept of an element. There are none where more are dropped than it has, or a range
ends beyond it. -/
def kept? (e : Element) (fromEnd : Bool) (count : Nat) : Option Bytes :=
  let count := min count e.size
  if fromEnd then
    if count ≤ e.size then e.bytes.slice? (e.size - count) e.size else none
  else e.bytes.slice? 0 count

def runKeep? (fromEnd : Bool) : Action (Option Unit) := do
  let size ← Action.popIndex
  let e ← Action.pop
  (kept? e fromEnd size).mapM Action.pushBytes

/-- There are always bytes that are kept. -/
theorem kept?_eq (e : Element) (fromEnd : Bool) (count : Nat) : kept? e fromEnd count =
    some (if fromEnd then e.bytes.drop (e.size - count) else e.bytes.take count) := by
  have hcount : min count e.size ≤ e.size := Nat.min_le_right count e.size
  cases fromEnd with
  | true =>
    have hstart : e.size - min count e.size = e.size - count := by omega
    show (if _ then _ else _) = _
    rw [if_pos hcount, hstart]
    exact Bytes.slice?_length (Nat.sub_le e.size count)
  | false =>
    have hslice : e.bytes.slice? 0 (0 + min count e.size) = _ :=
      Bytes.slice?_add ((Nat.zero_add _).trans_le hcount)
    rw [Nat.zero_add] at hslice
    have hall : min (min count e.size) e.size = min count e.size := Nat.min_eq_left hcount
    exact hslice.trans (congrArg some (List.take_eq_take_iff.mpr hall))

/-- **A range that is not refused can be read,** and neither the sum of its start and its size nor
an index goes beyond the largest one. -/
theorem runSlice?_eq : runSlice? = some <$> runSlice := by
  rw [runSlice?, runSlice]
  simp only [map_bind]
  refine Action.returns_popIndex.bind_congr fun size hsize => ?_
  refine Action.returns_popIndex.bind_congr fun start hstart => ?_
  have hstop : min (start + size) maxIndex = start + size := by
    unfold maxIndex
    omega
  refine congrArg (Action.pop >>= ·) (funext fun e => ?_)
  rw [hstop]
  by_cases h : start + size ≤ e.size
  · rw [if_pos h, if_pos h, Bytes.slice?_add h]
    rfl
  · rw [if_neg h, if_neg h]
    rfl

/-- **The first or the last bytes of an element can be kept, whatever the count.** -/
theorem runKeep?_eq (fromEnd : Bool) : runKeep? fromEnd = some <$> runKeep fromEnd := by
  rw [runKeep?, runKeep]
  simp only [map_bind, kept?_eq]
  rfl

end Operation

namespace Machine
variable {m : Machine}

/-! ### Calls -/

section Calls
variable {rest alt : List Element} {conditions : List Bool}
  (hexecuting : conditions.all id = true) (hliquid : m.rules.network = .liquid)
include hexecuting hliquid

theorem outcome_cat {b a : Element} (h : m.outcome = .ok ⟨b :: a :: rest, alt, conditions⟩) :
    (m.call (.word "OP_CAT")).outcome =
      if a.size + b.size ≤ 520 then .ok ⟨.raw (a.bytes ++ b.bytes) :: rest, alt, conditions⟩
      else .error (.opcode "OP_CAT" (.elementSize (a.size + b.size) 520)) :=
  outcome_ite h hexecuting (RuleSet.known_of_find? (b := 0x7e) rfl rfl)
    (decide_eq_true hliquid) (Operation.run_cat m.template rest alt conditions b a)

theorem outcome_slice {d size start : Element} {b s : Nat} (hstart : start.Indexes b)
    (hsize : size.Indexes s)
    (h : m.outcome = .ok ⟨size :: start :: d :: rest, alt, conditions⟩) :
    (m.call (.word "OP_SUBSTR")).outcome =
      if b + s ≤ d.size then .ok ⟨.raw ((d.bytes.drop b).take s) :: rest, alt, conditions⟩
      else .error (.opcode "OP_SUBSTR" (.operand (.byteRange b (b + s) d.size))) :=
  outcome_ite h hexecuting (RuleSet.known_of_find? (b := 0x7f) rfl rfl) (decide_eq_true hliquid)
    (Operation.run_slice m.template d rest alt conditions hstart hsize)

theorem outcome_left {d count : Element} {n : Nat} (hcount : count.Indexes n)
    (h : m.outcome = .ok ⟨count :: d :: rest, alt, conditions⟩) :
    (m.call (.word "OP_LEFT")).outcome = .ok ⟨.raw (d.bytes.take n) :: rest, alt, conditions⟩ :=
  outcome_ok h hexecuting (RuleSet.known_of_find? (b := 0x80) rfl rfl) (decide_eq_true hliquid)
    (Operation.run_keep m.template d rest alt conditions false hcount)

theorem outcome_right {d count : Element} {n : Nat} (hcount : count.Indexes n)
    (h : m.outcome = .ok ⟨count :: d :: rest, alt, conditions⟩) :
    (m.call (.word "OP_RIGHT")).outcome =
      .ok ⟨.raw (d.bytes.drop (d.size - n)) :: rest, alt, conditions⟩ :=
  outcome_ok h hexecuting (RuleSet.known_of_find? (b := 0x81) rfl rfl) (decide_eq_true hliquid)
    (Operation.run_keep m.template d rest alt conditions true hcount)

end Calls

/-! ### Joins and their parts -/

/-- Three literals pushed and joined, the last of them to the first two. -/
def joining (x y z : Literal) : List Call :=
  [.push x, .push y, .word "OP_CAT", .push z, .word "OP_CAT"]

/-- Three byte strings have been joined on a machine, and each of them can be cut out again. -/
structure Joined (m joined : Machine) (x y z : Bytes) : Prop where
  whole : joined.outcome = .ok ⟨.raw (x ++ y ++ z) :: m.main, m.alt, m.conditions⟩
  middle : (joined.run [.push (.number x.length), .push (.number y.length),
      .word "OP_SUBSTR"]).outcome = .ok ⟨.raw y :: m.main, m.alt, m.conditions⟩
  left : (joined.run [.push (.number x.length), .word "OP_LEFT"]).outcome =
    .ok ⟨.raw x :: m.main, m.alt, m.conditions⟩
  right : (joined.run [.push (.number z.length), .word "OP_RIGHT"]).outcome =
    .ok ⟨.raw z :: m.main, m.alt, m.conditions⟩

section
variable (h : m.error = none) (hexecuting : m.executing = true)
  (hliquid : m.rules.network = .liquid)
include h hexecuting hliquid

/-- What three literals come to. -/
theorem outcome_joining {lx ly lz : Literal} {x y z : Element} (hx : lx.Pushes x)
    (hy : ly.Pushes y) (hz : lz.Pushes z) :
    (m.run (joining lx ly lz)).outcome =
      if x.size + y.size ≤ 520 then
        if x.size + y.size + z.size ≤ 520 then
          .ok ⟨.raw (x.bytes ++ y.bytes ++ z.bytes) :: m.main, m.alt, m.conditions⟩
        else .error (.opcode "OP_CAT" (.elementSize (x.size + y.size + z.size) 520))
      else .error (.opcode "OP_CAT" (.elementSize (x.size + y.size) 520)) := by
  have hm : m.outcome = .ok ⟨m.main, m.alt, m.conditions⟩ := outcome_ok_iff.mpr ⟨h, rfl⟩
  have hpushed := outcome_push (outcome_push hm hexecuting hx) hexecuting hy
  have hfirst := outcome_cat hexecuting (by simpa using hliquid) hpushed
  simp only [joining, run_cons]
  by_cases hxy : x.size + y.size ≤ 520
  · rw [if_pos hxy] at hfirst ⊢
    have hsize : (Element.raw (x.bytes ++ y.bytes)).size = x.size + y.size := List.length_append
    have hsecond := outcome_cat hexecuting (by simpa using hliquid)
      (outcome_push hfirst hexecuting hz)
    rwa [hsize] at hsecond
  · rw [if_neg hxy] at hfirst ⊢
    -- The error of the first join is kept.
    have hkept := run_of_error (outcome_error_iff.mp hfirst) [.push lz, .word "OP_CAT"]
    exact (congrArg outcome hkept).trans hfirst

omit h in
/-- The parts of a joined element. -/
theorem joined_of_whole {joined : Machine} (hrules : joined.rules = m.rules) {x y z : Bytes}
    (hsize : x.length + y.length + z.length ≤ 520)
    (hwhole : joined.outcome = .ok ⟨.raw (x ++ y ++ z) :: m.main, m.alt, m.conditions⟩) :
    Joined m joined x y z := by
  have hx : x.length < 2 ^ 31 := by omega
  have hy : y.length < 2 ^ 31 := by omega
  have hz : z.length < 2 ^ 31 := by omega
  have hlength : (Element.raw (x ++ y ++ z)).size = x.length + y.length + z.length := by
    simp [Element.size, Element.bytes, Nat.add_assoc]
  have hnetwork : joined.rules.network = .liquid := hrules ▸ hliquid
  refine ⟨hwhole, ?_, ?_, ?_⟩
  · have hstart := outcome_number hwhole hexecuting (n := x.length) hx
    have hslice := outcome_slice hexecuting (by simpa using hnetwork)
      (Element.indexes_number hx) (Element.indexes_number hy)
      (outcome_number hstart hexecuting (n := y.length) hy)
    have hmiddle : ((x ++ y ++ z).drop x.length).take y.length = y := by simp
    rw [hlength, if_pos (Nat.le_add_right _ _), Element.bytes, hmiddle] at hslice
    exact hslice
  · have hleft := outcome_left hexecuting (by simpa using hnetwork) (Element.indexes_number hx)
      (outcome_number hwhole hexecuting (n := x.length) hx)
    have hfirst : (x ++ y ++ z).take x.length = x := by simp
    rw [Element.bytes, hfirst] at hleft
    exact hleft
  · have hright := outcome_right hexecuting (by simpa using hnetwork) (Element.indexes_number hz)
      (outcome_number hwhole hexecuting (n := z.length) hz)
    have hlast : (x ++ y ++ z).drop (x.length + y.length) = z := List.drop_left' List.length_append
    rw [hlength, Nat.add_sub_cancel, Element.bytes, hlast] at hright
    exact hright

end

/-! ### Cuts -/

/-- The machine with another main stack. -/
def withMain (m : Machine) (main : List Element) : Machine := { m with main := main }

/-- What is cut out of an element above the rest of the main stack. A range is refused just when it
ends beyond the element, and a count is never refused; so any count leaves two parts that make up
the element. -/
structure Cuts (m : Machine) (d : Element) (rest : List Element) : Prop where
  slice : ∀ {start size : Element} {b s : Nat}, start.Indexes b → size.Indexes s →
    ((m.withMain (size :: start :: d :: rest)).call (.word "OP_SUBSTR")).outcome =
      if b + s ≤ d.size then .ok ⟨.raw ((d.bytes.drop b).take s) :: rest, m.alt, m.conditions⟩
      else .error (.opcode "OP_SUBSTR" (.operand (.byteRange b (b + s) d.size)))
  left : ∀ {count : Element} {n : Nat}, count.Indexes n →
    ((m.withMain (count :: d :: rest)).call (.word "OP_LEFT")).outcome =
      .ok ⟨.raw (d.bytes.take n) :: rest, m.alt, m.conditions⟩
  right : ∀ {count : Element} {n : Nat}, count.Indexes n →
    ((m.withMain (count :: d :: rest)).call (.word "OP_RIGHT")).outcome =
      .ok ⟨.raw (d.bytes.drop (d.size - n)) :: rest, m.alt, m.conditions⟩
  parts : ∀ {count others : Element} {k : Nat}, count.Indexes (min k d.size) →
    others.Indexes (d.size - min k d.size) →
    ∃ l r, ((m.withMain (count :: d :: rest)).call (.word "OP_LEFT")).outcome =
        .ok ⟨.raw l :: rest, m.alt, m.conditions⟩ ∧
      ((m.withMain (others :: d :: rest)).call (.word "OP_RIGHT")).outcome =
        .ok ⟨.raw r :: rest, m.alt, m.conditions⟩ ∧ l ++ r = d.bytes

theorem cuts (h : m.error = none) (hexecuting : m.executing = true)
    (hliquid : m.rules.network = .liquid) (d : Element) (rest : List Element) : m.Cuts d rest := by
  have hon (main : List Element) :
      (m.withMain main).outcome = .ok ⟨main, m.alt, m.conditions⟩ := outcome_ok_iff.mpr ⟨h, rfl⟩
  have hrules (main : List Element) : (m.withMain main).rules.network = .liquid := hliquid
  have hleft {count : Element} {n : Nat} (hcount : count.Indexes n) :=
    outcome_left hexecuting (hrules _) hcount (hon (count :: d :: rest))
  have hright {count : Element} {n : Nat} (hcount : count.Indexes n) :=
    outcome_right hexecuting (hrules _) hcount (hon (count :: d :: rest))
  refine ⟨fun hstart hsize => outcome_slice hexecuting (hrules _) hstart hsize (hon _), hleft,
    hright, fun {_ _ k} hcount hothers => ⟨_, _, hleft hcount, hright hothers, ?_⟩⟩
  rw [Nat.sub_sub_self (Nat.min_le_right k d.size)]
  exact List.take_append_drop ..

/-- Every byte string that an element may hold is pushed by a literal. -/
theorem exists_pushes_raw {b : Bytes} (h : b.length ≤ 520) : ∃ l : Literal, l.Pushes (.raw b) := by
  refine ⟨.hex b.hexDigits, ?_, h⟩
  rw [Literal.element, Bytes.ofHex?_hexDigits]

/-- **Splices undo joins.** Under Liquid, three literals whose elements are not too long together
are joined to one, out of which each of the three is cut again; of others, one of the two joins
is the error. What is cut out of any element is that part of it, or refused. -/
theorem splices_undo_joins :
    (∀ b : Bytes, b.length ≤ 520 → ∃ l : Literal, l.Pushes (.raw b)) ∧
    ∀ m : Machine, m.error = none → m.executing = true → m.rules.network = .liquid →
      (∀ (lx ly lz : Literal) (x y z : Element), lx.Pushes x → ly.Pushes y → lz.Pushes z →
        (x.size + y.size + z.size ≤ 520 →
          Joined m (m.run (joining lx ly lz)) x.bytes y.bytes z.bytes) ∧
        (520 < x.size + y.size + z.size →
          (m.run (joining lx ly lz)).error = some (.opcode "OP_CAT" (.elementSize
            (if x.size + y.size ≤ 520 then x.size + y.size + z.size else x.size + y.size) 520)))) ∧
      ∀ (d : Element) (rest : List Element), m.Cuts d rest := by
  refine ⟨fun b => exists_pushes_raw, fun m h hexecuting hliquid => ⟨?_, cuts h hexecuting hliquid⟩⟩
  intro lx ly lz x y z hx hy hz
  have hjoining := outcome_joining h hexecuting hliquid hx hy hz
  constructor
  · intro hfits
    rw [if_pos (Nat.le_of_add_right_le hfits), if_pos hfits] at hjoining
    exact joined_of_whole hexecuting hliquid (run_rules ..) hfits hjoining
  · intro hlong
    refine outcome_error_iff.mp (hjoining.trans ?_)
    split
    · rw [if_neg (Nat.not_le.mpr hlong)]
    · rfl

/-- A letter, two bytes and an empty element are joined; two elements that are too long together
are not; and a range is read from operands with a zero too many. -/
theorem splices_undo_joins_mixed :
    let m : Machine := { new ⟨.liquid, .segwit⟩ with main := [.number 9] }
    let zeros : Element := .raw (List.replicate 300 0)
    m.error = none ∧ m.executing = true ∧ m.rules.network = .liquid ∧
    Joined m (m.run (joining (.text ['a']) (.hex ['0', '1', '0', '2']) (.number 0))) [97] [1, 2] [] ∧
    (∃ l : Literal, l.Pushes zeros ∧
      (m.run (joining l l l)).error = some (.opcode "OP_CAT" (.elementSize 600 520))) ∧
    (Element.raw [2, 0]).Indexes 2 ∧ (Element.raw [1, 0]).Indexes 1 ∧
    ((m.withMain [.raw [2, 0], .raw [1, 0], .raw [7, 8, 9], .number 9]).call
      (.word "OP_SUBSTR")).outcome = .ok ⟨[.raw [8, 9], .number 9], [], []⟩ := by
  intro m zeros
  obtain ⟨hliteral, hall⟩ := splices_undo_joins
  obtain ⟨hjoins, hcuts⟩ := hall m rfl rfl rfl
  have hzeros : zeros.size = 300 := List.length_replicate
  obtain ⟨l, hl⟩ : ∃ l : Literal, l.Pushes zeros := hliteral _ (hzeros.trans_le (by decide))
  have hletter : (Literal.text ['a']).Pushes (.text ['a']) := ⟨rfl, by decide +kernel⟩
  have hbytes : (Literal.hex ['0', '1', '0', '2']).Pushes (.raw [1, 2]) := ⟨rfl, by decide +kernel⟩
  have hnumber : (Literal.number 0).Pushes (.number 0) := ⟨rfl, by decide +kernel⟩
  have hjoined := (hjoins _ _ _ _ _ _ hletter hbytes hnumber).1 (by decide +kernel)
  have hlong := (hjoins _ _ _ _ _ _ hl hl hl).2 (by rw [hzeros]; decide)
  rw [hzeros] at hlong
  have hsize : (Element.raw [2, 0]).Indexes 2 := by unfold Element.Indexes; decide +kernel
  have hstart : (Element.raw [1, 0]).Indexes 1 := by unfold Element.Indexes; decide +kernel
  refine ⟨rfl, rfl, rfl, ?_, ⟨l, hl, hlong⟩, hsize, hstart, ?_⟩
  · have htext : (Element.text ['a']).bytes = [97] := by decide +kernel
    have hempty : (Element.number 0).bytes = [] := Number.encode_zero
    rwa [htext, hempty] at hjoined
  · exact (hcuts (.raw [7, 8, 9]) [.number 9]).slice hstart hsize

end Machine

end ScriptBench
