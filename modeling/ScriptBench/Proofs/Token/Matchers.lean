import Mathlib.Data.List.TakeWhile
import ScriptBench.Proofs.Bytes.Slice
import ScriptBench.Proofs.Text.Lines
import ScriptBench.Proofs.Token.Longest

/-! The patterns of identifiers and literals over byte strings, by index.

Each function goes over the bytes with indices and slices and has no result as soon as one of
them is out of range. It always has one, and that is what the pattern says of the bytes from
the index on. A byte is read as the character of its number; as no pattern has other characters than
those below 128 in it, a text's bytes in UTF-8 match just as the text does. -/
namespace ScriptBench.Pattern

open Bytes (slice?)

variable {bytes : Bytes} {i : Nat} {p digit : Char → Bool} {s t : Text}

/-! ### Bytes -/

/-- A byte string as the characters of the same numbers. -/
def characters (bytes : Bytes) : Text := bytes.map Char.ofUInt8

/-- The bytes from an index on. -/
def from? (bytes : Bytes) (i : Nat) : Option Bytes := slice? bytes i bytes.length

/-- How many bytes there are up to the first that is not of a class. -/
def run (p : Char → Bool) (bytes : Bytes) : Nat := (bytes.takeWhile (p ∘ Char.ofUInt8)).length

/-- The index of the last byte of a class. -/
def lastIndex? (p : Char → Bool) : Bytes → Option Nat
  | [] => none
  | b :: rest =>
    match lastIndex? p rest with
    | some k => some (k + 1)
    | none => if p (Char.ofUInt8 b) then some 0 else none

theorem from?_eq (h : i ≤ bytes.length) : from? bytes i = some (bytes.drop i) :=
  Bytes.slice?_length h

theorem le_of_from? {rest : Bytes} (h : from? bytes i = some rest) :
    i ≤ bytes.length ∧ rest = bytes.drop i := by
  rw [from?, slice?] at h
  split at h
  · rename_i hrange
    rw [List.take_length] at h
    exact ⟨hrange.1, (Option.some.inj h).symm⟩
  · cases h

theorem run_eq (p : Char → Bool) (bytes : Bytes) :
    run p bytes = ((characters bytes).takeWhile p).length := by
  rw [run, characters, List.takeWhile_map, List.length_map]

theorem run_eq_zero_iff : run p bytes = 0 ↔ (characters bytes).takeWhile p = [] := by
  rw [run_eq, List.length_eq_zero_iff]

theorem run_le (p : Char → Bool) (bytes : Bytes) : run p bytes ≤ bytes.length :=
  (List.takeWhile_prefix _).length_le

theorem length_characters (bytes : Bytes) : (characters bytes).length = bytes.length :=
  List.length_map _

theorem characters_append_cons (front back : Bytes) (b : UInt8) :
    characters (front ++ b :: back) = characters front ++ Char.ofUInt8 b :: characters back := by
  rw [characters, List.map_append, List.map_cons, characters, characters]

theorem characters_drop (bytes : Bytes) (i : Nat) :
    characters (bytes.drop i) = (characters bytes).drop i := List.map_drop

theorem add_run_le {rest : Bytes} (h : from? bytes i = some rest) (p : Char → Bool) :
    i + run p rest ≤ bytes.length := by
  obtain ⟨hi, rfl⟩ := le_of_from? h
  have hrun := run_le p (bytes.drop i)
  rw [List.length_drop] at hrun
  omega

/-! ### Matching by index -/

/-- Where the identifier ends that begins at an index, if one does. The outer option is for the
indices, here and in the functions below. -/
def identifierEnd? (bytes : Bytes) (i : Nat) : Option (Option Nat) := do
  let first ← bytes[i]?
  if isNameStart (Char.ofUInt8 first) then
    let more := run isNamePart (← from? bytes (i + 1))
    return if more = 0 then none else some (i + 1 + more)
  else
    return none

/-- Where underscores and digits behind them end, any number of times. -/
def groupsEnd? (bytes : Bytes) (i : Nat) : Option Nat :=
  match hrest : from? bytes i with
  | none => none
  | some rest =>
    let underscores := run (· == '_') rest
    if underscores = 0 then some i
    else
      match from? bytes (i + underscores) with
      | none => none
      | some rest =>
        let more := run isDigit rest
        if more = 0 then some i
        else
          -- The index comes closer to the end with every turn.
          have := add_run_le hrest (· == '_')
          groupsEnd? bytes (i + underscores + more)
termination_by bytes.length - i

def naturalEnd? (bytes : Bytes) (i : Nat) : Option (Option Nat) := do
  let digits := run isDigit (← from? bytes i)
  if digits = 0 then
    return none
  else
    return some (← groupsEnd? bytes (i + digits))

def integerEnd? (bytes : Bytes) (i : Nat) : Option (Option Nat) := do
  let first ← bytes[i]?
  naturalEnd? bytes (if Char.ofUInt8 first == '-' then i + 1 else i)

def hexEnd? (bytes : Bytes) (i : Nat) : Option (Option Nat) := do
  let length := run (fun c => isHexDigit c || c == '_') (← from? bytes i)
  let slice ← slice? bytes i (i + length)
  if slice.head?.any (Char.ofUInt8 · == '_') then
    return none
  else
    match lastIndex? isHexDigit slice with
    | none => return none
    | some last =>
      let digits := (← slice? slice 0 (last + 1)).countP (isHexDigit ∘ Char.ofUInt8)
      return if digits < 2 then none else some (i + last + 1)

/-! ### Identifiers -/

theorem identifierEnd?_eq (hi : i < bytes.length) : identifierEnd? bytes i =
    some ((identifier? (characters (bytes.drop i))).map (i + ·)) := by
  rw [List.drop_eq_getElem_cons hi, characters, List.map_cons, identifier?_cons,
    ← characters, identifierEnd?, List.getElem?_eq_getElem hi]
  simp only [Option.bind_eq_bind, Option.bind_some, from?_eq hi, run_eq, Option.pure_def]
  generalize (characters (bytes.drop (i + 1))).takeWhile isNamePart = tail
  cases isNameStart (Char.ofUInt8 bytes[i]) with
  | false => rfl
  | true =>
    cases tail with
    | nil => rfl
    | cons c tail => simp [Nat.add_comm, Nat.add_left_comm]

/-! ### Integers -/

/-- Nothing goes on behind underscores that no digit follows. -/
theorem digitRun_underscores (hs : ∀ c ∈ s, c = '_')
    (ht : ∀ c ∈ t.head?, digit c = false ∧ c ≠ '_') : digitRun digit (s ++ t) = [] := by
  have hstop : (t.takeWhile fun c => digit c || c == '_') = [] := by
    cases t with
    | nil => rfl
    | cons c t =>
      obtain ⟨hc, hne⟩ := ht c rfl
      exact List.takeWhile_cons_of_neg (by simp [hc, hne])
  have hall : ∀ c ∈ s, (digit c || c == '_') = true := fun c hc => by rw [hs c hc]; simp
  have hdrop : s.reverse.dropWhile (· == '_') = [] := by
    refine List.dropWhile_eq_nil_iff.mpr fun c hc => ?_
    exact beq_iff_eq.mpr (hs c (List.mem_reverse.mp hc))
  rw [digitRun, List.takeWhile_append_of_pos hall, hstop, List.append_nil, hdrop, List.reverse_nil]

theorem drop_run (p : Char → Bool) (bytes : Bytes) :
    characters (bytes.drop (run p bytes)) = (characters bytes).dropWhile p := by
  rw [characters_drop, run_eq]
  exact (congrArg (List.drop _) List.takeWhile_append_dropWhile.symm).trans List.drop_left

theorem drop_add_run (p : Char → Bool) (bytes : Bytes) (i : Nat) :
    characters (bytes.drop (i + run p (bytes.drop i))) =
      (characters (bytes.drop i)).dropWhile p := by
  rw [← List.drop_drop, drop_run]

/-- One turn of the loop. -/
theorem groupsEnd?_step (hi : i ≤ bytes.length) : groupsEnd? bytes i =
    let underscores := run (· == '_') (bytes.drop i)
    let more := run isDigit (bytes.drop (i + underscores))
    if underscores = 0 ∨ more = 0 then some i else groupsEnd? bytes (i + underscores + more) := by
  have hinside := add_run_le (from?_eq hi) (· == '_')
  rw [groupsEnd?]
  split
  case h_1 hnone =>
    rw [from?_eq hi] at hnone
    cases hnone
  case h_2 rest hrest =>
    obtain ⟨-, rfl⟩ := le_of_from? hrest
    simp only [from?_eq hinside]
    split
    case isTrue hzero => rw [if_pos (.inl hzero)]
    case isFalse hpos => simp only [hpos, false_or]

/-- Where no digit follows the underscores, or there are none, the run is over. -/
theorem digitRun_eq_nil (hfirst : ∀ c ∈ t.head?, digit c = false)
    (hstop : t.takeWhile (· == '_') = [] ∨ (t.dropWhile (· == '_')).takeWhile digit = []) :
    digitRun digit t = [] := by
  have hkeep (p : Char → Bool) (t : Text) (h : t.takeWhile p = []) : t.dropWhile p = t := by
    have hsplit := List.takeWhile_append_dropWhile (p := p) (l := t)
    rwa [h, List.nil_append] at hsplit
  rw [← List.takeWhile_append_dropWhile (p := (· == '_')) (l := t)]
  refine digitRun_underscores (fun c hc => ?_) fun c hc => ⟨?_, ?_⟩
  · exact beq_iff_eq.mp (List.all_eq_true.mp List.all_takeWhile c hc)
  · obtain hnone | hdigits := hstop
    · rw [hkeep _ t hnone] at hc
      exact hfirst c hc
    · rw [← hkeep _ _ hdigits] at hc
      exact Text.head?_dropWhile digit _ c hc
  · exact beq_eq_false_iff_ne.mp (Text.head?_dropWhile (· == '_') t c hc)

/-- Underscores and digits behind them go into the run. -/
theorem digitRun_eq_append (hdigit : digit '_' = false)
    (hgo : (t.dropWhile (· == '_')).takeWhile digit ≠ []) : digitRun digit t =
      t.takeWhile (· == '_') ++ (t.dropWhile (· == '_')).takeWhile digit ++
        digitRun digit ((t.dropWhile (· == '_')).dropWhile digit) := by
  have hends : EndsOnDigit digit
      (t.takeWhile (· == '_') ++ (t.dropWhile (· == '_')).takeWhile digit) := by
    refine .underscores_append (fun c hc => ?_) (.of_digits fun c hc => ?_) hgo
    · exact beq_iff_eq.mp (List.all_eq_true.mp List.all_takeWhile c hc)
    · exact List.all_eq_true.mp List.all_takeWhile c hc
  rw [← digitRun_append hdigit hends, List.append_assoc, List.takeWhile_append_dropWhile,
    List.takeWhile_append_dropWhile]

/-- The loop stops where the run of digits and underscores up to a digit does. -/
theorem groupsEnd?_eq (hi : i ≤ bytes.length)
    (hfirst : ∀ c ∈ (characters (bytes.drop i)).head?, isDigit c = false) :
    groupsEnd? bytes i = some (i + (digitRun isDigit (characters (bytes.drop i))).length) := by
  induction hleft : bytes.length - i using Nat.strong_induction_on generalizing i with
  | h left ih =>
    have hinside := add_run_le (from?_eq hi) (· == '_')
    have hfurther := add_run_le (from?_eq hinside) isDigit
    have hmiddle := drop_add_run (· == '_') bytes i
    have hrest := drop_add_run isDigit bytes (i + run (· == '_') (bytes.drop i))
    rw [groupsEnd?_step hi]
    dsimp only
    split
    case isTrue hstop =>
      rw [run_eq_zero_iff, run_eq_zero_iff, hmiddle] at hstop
      rw [digitRun_eq_nil hfirst hstop]
      rfl
    case isFalse hgo =>
      obtain ⟨hsome, hmore⟩ := not_or.mp hgo
      have hnext := ih _ (by omega) hfurther (hrest ▸ Text.head?_dropWhile isDigit _) rfl
      rw [run_eq_zero_iff, hmiddle] at hmore
      rw [hnext, digitRun_eq_append rfl hmore, hrest, hmiddle, List.length_append,
        List.length_append, ← hmiddle, ← run_eq, ← run_eq, Nat.add_assoc, Nat.add_assoc,
        Nat.add_assoc]

/-- Digits, and the run that goes on behind them. -/
theorem natural?_eq (t : Text) : natural? t =
    if t.takeWhile isDigit = [] then none
    else some ((t.takeWhile isDigit).length + (digitRun isDigit (t.dropWhile isDigit)).length) := by
  have hdigits : ∀ c ∈ t.takeWhile isDigit, isDigit c = true :=
    List.all_eq_true.mp List.all_takeWhile
  have hrun : digitRun isDigit t =
      t.takeWhile isDigit ++ digitRun isDigit (t.dropWhile isDigit) := by
    rw [← digitRun_append rfl (.of_digits hdigits), List.takeWhile_append_dropWhile]
  cases hfront : t.takeWhile isDigit with
  | nil =>
    have hfirst : ¬(digitRun isDigit t).head?.any isDigit = true := by
      obtain ⟨rest, hrest⟩ := digitRun_prefix isDigit t
      cases hcase : digitRun isDigit t with
      | nil => simp
      | cons c run =>
        intro hfirst
        have hc : isDigit c = true := hfirst
        rw [← hrest, hcase, List.cons_append, List.takeWhile_cons_of_pos hc] at hfront
        cases hfront
    rw [natural?, if_neg hfirst, if_pos rfl]
  | cons c m =>
    have hc : isDigit c = true := hdigits c (hfront ▸ List.mem_cons_self)
    rw [hfront] at hrun
    rw [natural?, hrun, List.cons_append, List.head?_cons, Option.any_some, if_pos hc,
      if_neg (List.cons_ne_nil c m), ← List.cons_append, List.length_append]

theorem naturalEnd?_eq (hi : i ≤ bytes.length) : naturalEnd? bytes i =
    some ((natural? (characters (bytes.drop i))).map (i + ·)) := by
  have hinside := add_run_le (from?_eq hi) isDigit
  have hrest := drop_add_run isDigit bytes i
  rw [naturalEnd?, natural?_eq]
  simp only [from?_eq hi, Option.bind_eq_bind, Option.bind_some, run_eq_zero_iff]
  split
  case isTrue => rfl
  case isFalse =>
    rw [groupsEnd?_eq hinside (hrest ▸ Text.head?_dropWhile isDigit _), hrest, ← run_eq]
    simp only [Option.bind_some, Option.pure_def, Option.map_some, Nat.add_assoc]

theorem integer?_cons (c : Char) (rest : Text) : integer? (c :: rest) =
    if c == '-' then (natural? rest).map (· + 1) else natural? (c :: rest) := by
  by_cases hc : c = '-'
  · subst hc
    rfl
  · rw [if_neg (by simpa using hc), integer?]
    rintro rest heq
    exact hc (List.cons.inj heq).1

theorem integerEnd?_eq (hi : i < bytes.length) : integerEnd? bytes i =
    some ((integer? (characters (bytes.drop i))).map (i + ·)) := by
  have hcons : characters (bytes.drop i) =
      Char.ofUInt8 bytes[i] :: characters (bytes.drop (i + 1)) := by
    rw [List.drop_eq_getElem_cons hi]
    rfl
  rw [integerEnd?, hcons, integer?_cons, List.getElem?_eq_getElem hi, ← hcons]
  simp only [Option.bind_eq_bind, Option.bind_some]
  split
  · rw [naturalEnd?_eq hi, Option.map_map]
    refine congrArg (fun f => some (Option.map f _)) (funext fun n => ?_)
    exact Nat.add_right_comm i 1 n
  · exact naturalEnd?_eq (Nat.le_of_lt hi)

/-! ### Hexadecimal digits -/

theorem not_of_lastIndex?_eq_none (h : lastIndex? p bytes = none) :
    ∀ c ∈ characters bytes, p c = false := by
  induction bytes with
  | nil => exact fun c hc => absurd hc List.not_mem_nil
  | cons b rest ih =>
    rw [lastIndex?] at h
    split at h
    · cases h
    · rename_i hrest
      split at h
      · cases h
      · rename_i hb
        exact List.forall_mem_cons.mpr ⟨eq_false_of_ne_true hb, ih hrest⟩

theorem exists_of_lastIndex? {k : Nat} (h : lastIndex? p bytes = some k) : ∃ front b back,
    bytes = front ++ b :: back ∧ front.length = k ∧ p (Char.ofUInt8 b) = true ∧
      ∀ c ∈ characters back, p c = false := by
  induction bytes generalizing k with
  | nil => cases h
  | cons b rest ih =>
    rw [lastIndex?] at h
    split at h
    · rename_i k' hrest
      obtain ⟨front, d, back, rfl, hlength, hd, hback⟩ := ih hrest
      refine ⟨b :: front, d, back, rfl, ?_, hd, hback⟩
      rw [List.length_cons, hlength, Option.some.inj h]
    · rename_i hrest
      split at h
      · rename_i hb
        exact ⟨[], b, rest, rfl, Option.some.inj h, hb, not_of_lastIndex?_eq_none hrest⟩
      · cases h

theorem slice?_run (p : Char → Bool) (hi : i ≤ bytes.length) :
    slice? bytes i (i + run p (bytes.drop i)) =
      some ((bytes.drop i).takeWhile (p ∘ Char.ofUInt8)) := by
  rw [Bytes.slice?_add (add_run_le (from?_eq hi) p), run]
  refine congrArg some (List.prefix_iff_eq_take.mp ?_).symm
  exact List.takeWhile_prefix _

/-- The run ends with the last digit among the digits and underscores. -/
theorem digitRun_of_last {front back : Text} {c : Char} (hdigit : digit '_' = false)
    (ht : (t.takeWhile fun c => digit c || c == '_') = front ++ c :: back) (hc : digit c = true)
    (hback : ∀ d ∈ back, digit d = false) : digitRun digit t = front ++ [c] := by
  have hunderscore : ∀ d ∈ back.reverse, (d == '_') = true := by
    intro d hd
    rw [List.mem_reverse] at hd
    have htake : d ∈ t.takeWhile fun c => digit c || c == '_' := by
      rw [ht]
      exact List.mem_append_right front (List.mem_cons_of_mem c hd)
    have hclass : (digit d || d == '_') = true := List.all_eq_true.mp List.all_takeWhile d htake
    rwa [hback d hd, Bool.false_or] at hclass
  have hkeep : (c :: front.reverse).dropWhile (· == '_') = c :: front.reverse := by
    refine List.dropWhile_cons_of_neg fun heq => ?_
    rw [beq_iff_eq.mp heq, hdigit] at hc
    cases hc
  rw [digitRun, ht, List.reverse_append, List.reverse_cons, List.append_assoc,
    List.dropWhile_append_of_pos hunderscore, List.singleton_append, hkeep, List.reverse_cons,
    List.reverse_reverse]

theorem hex?_of_last {front back : Text} {c : Char}
    (ht : (t.takeWhile fun c => isHexDigit c || c == '_') = front ++ c :: back)
    (hc : isHexDigit c = true) (hback : ∀ d ∈ back, isHexDigit d = false) : hex? t =
      if (front ++ [c]).head? != some '_' && 2 ≤ (front ++ [c]).countP isHexDigit then
        some (front.length + 1)
      else none := by
  rw [hex?, digitRun_of_last rfl ht hc hback]
  simp only [List.length_append, List.length_singleton]

theorem hex?_of_none
    (ht : ∀ c ∈ t.takeWhile fun c => isHexDigit c || c == '_', isHexDigit c = false) :
    hex? t = none := by
  have hcount : (digitRun isHexDigit t).countP isHexDigit = 0 := by
    refine List.countP_eq_zero.mpr fun c hc => ?_
    exact ne_true_of_eq_false (ht c ((digitRun_prefix_takeWhile isHexDigit t).subset hc))
  simp [hex?, hcount]

theorem hexEnd?_eq (hi : i ≤ bytes.length) : hexEnd? bytes i =
    some ((hex? (characters (bytes.drop i))).map (i + ·)) := by
  obtain ⟨slice, hslice⟩ : ∃ slice, (bytes.drop i).takeWhile
      ((fun c => isHexDigit c || c == '_') ∘ Char.ofUInt8) = slice := ⟨_, rfl⟩
  have htake : (characters (bytes.drop i)).takeWhile (fun c => isHexDigit c || c == '_') =
      characters slice := by
    rw [characters, List.takeWhile_map, hslice, characters]
  rw [hexEnd?]
  simp only [from?_eq hi, Option.bind_eq_bind, Option.bind_some, slice?_run _ hi, hslice]
  cases hlast : lastIndex? isHexDigit slice with
  | none =>
    rw [hex?_of_none (htake ▸ not_of_lastIndex?_eq_none hlast)]
    split <;> rfl
  | some k =>
    obtain ⟨front, b, back, rfl, rfl, hb, hback⟩ := exists_of_lastIndex? hlast
    rw [characters_append_cons] at htake
    have hcut : slice? (front ++ b :: back) 0 (front.length + 1) = some (front ++ [b]) := by
      rw [slice?, if_pos (by simp), List.append_cons, List.drop_zero]
      exact congrArg some (List.take_left' (by simp))
    have hfirst : (front ++ b :: back).head?.any (Char.ofUInt8 · == '_') = true ↔
        (characters front ++ [Char.ofUInt8 b]).head? = some '_' := by
      cases front <;> simp [characters]
    have hdigits : (front ++ [b]).countP (isHexDigit ∘ Char.ofUInt8) =
        (characters front ++ [Char.ofUInt8 b]).countP isHexDigit := by
      rw [List.countP_append, List.countP_append, characters, List.countP_map]
      rfl
    rw [hex?_of_last htake hb hback, length_characters]
    simp only [hcut, hfirst, hdigits, Option.bind_some, Option.pure_def]
    split
    case isTrue hunderscore => simp [hunderscore]
    case isFalse hunderscore =>
      by_cases hfew : (characters front ++ [Char.ofUInt8 b]).countP isHexDigit < 2
      · simp only [hfew, Nat.not_le.mpr hfew, decide_false, Bool.and_false, if_true]
        rfl
      · simp only [hfew, Nat.not_lt.mp hfew, bne_iff_ne.mpr hunderscore, decide_true,
          Bool.and_true, if_true, if_false, Option.map_some, Nat.add_assoc]

/-! ### The bytes of a text -/

/-- A class without characters of more than one byte. -/
def IsNarrow (p : Char → Bool) : Prop := ∀ c : Char, 128 ≤ c.toNat → p c = false

theorem isNarrow_beq {d : Char} (hd : d.toNat < 128) : IsNarrow (· == d) := by
  intro c hc
  refine beq_eq_false_iff_ne.mpr fun heq => ?_
  rw [heq] at hc
  omega

theorem isNarrow_range (d : Char) {e : Char} (he : e.toNat < 128) :
    IsNarrow fun c => d ≤ c && c ≤ e := by
  intro c hc
  have hbeyond : ¬c ≤ e := by
    intro hle
    have hnumber : c.toNat ≤ e.toNat := UInt32.le_iff_toNat_le.mp (Char.le_def.mp hle)
    omega
  simp only [hbeyond, decide_false, Bool.and_false]

theorem IsNarrow.or {q : Char → Bool} (hp : IsNarrow p) (hq : IsNarrow q) :
    IsNarrow fun c => p c || q c := by
  intro c hc
  simp only [hp c hc, hq c hc, Bool.or_false]

theorem isNarrow_isDigit : IsNarrow isDigit := isNarrow_range '0' (by decide)

theorem isNarrow_isLetter : IsNarrow isLetter :=
  (isNarrow_range 'a' (by decide)).or (isNarrow_range 'A' (by decide))

theorem isNarrow_isHexDigit : IsNarrow isHexDigit :=
  (isNarrow_isDigit.or (isNarrow_range 'a' (by decide))).or (isNarrow_range 'A' (by decide))

theorem toNat_ofUInt8 (b : UInt8) : (Char.ofUInt8 b).toNat = b.toNat := rfl

theorem characters_utf8_of_lt {c : Char} (hc : c.toNat < 128) (t : Text) :
    characters (Text.utf8 (c :: t)) = c :: characters (Text.utf8 t) := by
  have hbyte : String.utf8EncodeChar c = [UInt8.ofNat c.toNat] := by
    rw [String.utf8EncodeChar]
    exact if_pos (Nat.le_of_lt_succ hc)
  have hchar : Char.ofUInt8 (UInt8.ofNat c.toNat) = c := by
    rw [← Char.toNat_inj, toNat_ofUInt8, UInt8.toNat_ofNat', Nat.mod_eq_of_lt (by omega)]
  rw [Text.utf8, List.flatMap_cons, hbyte, List.singleton_append, characters, List.map_cons, hchar]
  rfl

theorem exists_characters_utf8 {c : Char} (hc : 128 ≤ c.toNat) (t : Text) :
    ∃ d rest, characters (Text.utf8 (c :: t)) = d :: rest ∧ 128 ≤ d.toNat := by
  have hbyte : ∃ b rest, String.utf8EncodeChar c = b :: rest ∧ 128 ≤ b.toNat := by
    have hfirst (n : Nat) (hlow : 128 ≤ n) (hhigh : n < 256) : 128 ≤ (UInt8.ofNat n).toNat := by
      rwa [UInt8.toNat_ofNat', Nat.mod_eq_of_lt hhigh]
    have hwide : ¬c.val.toNat ≤ 127 := Nat.not_le.mpr hc
    rw [String.utf8EncodeChar, if_neg hwide]
    split
    · exact ⟨_, _, rfl, hfirst _ (by omega) (by omega)⟩
    · split <;> exact ⟨_, _, rfl, hfirst _ (by omega) (by omega)⟩
  obtain ⟨b, rest, heq, hb⟩ := hbyte
  refine ⟨Char.ofUInt8 b, characters (rest ++ Text.utf8 t), ?_, ?_⟩
  · rw [Text.utf8, List.flatMap_cons, heq]
    rfl
  · rwa [toNat_ofUInt8]

theorem takeWhile_utf8 (hp : IsNarrow p) (t : Text) :
    (characters (Text.utf8 t)).takeWhile p = t.takeWhile p := by
  induction t with
  | nil => rfl
  | cons c t ih =>
    obtain hc | hc := Nat.lt_or_ge c.toNat 128
    · rw [characters_utf8_of_lt hc, List.takeWhile_cons, List.takeWhile_cons, ih]
    · obtain ⟨d, rest, heq, hd⟩ := exists_characters_utf8 hc t
      rw [heq, List.takeWhile_cons_of_neg (by simp [hp d hd]),
        List.takeWhile_cons_of_neg (by simp [hp c hc])]

theorem digitRun_utf8 (hdigit : IsNarrow digit) (t : Text) :
    digitRun digit (characters (Text.utf8 t)) = digitRun digit t := by
  rw [digitRun, takeWhile_utf8 (hdigit.or (isNarrow_beq (by decide))), digitRun]

theorem identifier?_utf8 (t : Text) : identifier? (characters (Text.utf8 t)) = identifier? t := by
  have hpart : IsNarrow isNamePart :=
    (((isNarrow_isLetter.or isNarrow_isDigit).or (isNarrow_beq (by decide))).or
      (isNarrow_beq (by decide))).or (isNarrow_beq (by decide))
  have hstart : IsNarrow isNameStart := isNarrow_isLetter.or (isNarrow_beq (by decide))
  cases t with
  | nil => rfl
  | cons c t =>
    obtain hc | hc := Nat.lt_or_ge c.toNat 128
    · rw [characters_utf8_of_lt hc, identifier?_cons, identifier?_cons, takeWhile_utf8 hpart]
    · obtain ⟨d, rest, heq, hd⟩ := exists_characters_utf8 hc t
      rw [heq, identifier?_cons, identifier?_cons, hstart c hc, hstart d hd]
      rfl

theorem natural?_utf8 (t : Text) : natural? (characters (Text.utf8 t)) = natural? t := by
  rw [natural?, digitRun_utf8 isNarrow_isDigit, natural?]

theorem integer?_utf8 (t : Text) : integer? (characters (Text.utf8 t)) = integer? t := by
  cases t with
  | nil => rfl
  | cons c t =>
    obtain hc | hc := Nat.lt_or_ge c.toNat 128
    · rw [characters_utf8_of_lt hc, integer?_cons, integer?_cons, natural?_utf8,
        ← characters_utf8_of_lt hc, natural?_utf8]
    · have hsign : IsNarrow (· == '-') := isNarrow_beq (by decide)
      obtain ⟨d, rest, heq, hd⟩ := exists_characters_utf8 hc t
      have hneither : (c == '-') = false ∧ (d == '-') = false := ⟨hsign c hc, hsign d hd⟩
      rw [heq, integer?_cons, integer?_cons, hneither.1, hneither.2, ← heq, natural?_utf8]
      rfl

theorem hex?_utf8 (t : Text) : hex? (characters (Text.utf8 t)) = hex? t := by
  rw [hex?, digitRun_utf8 isNarrow_isHexDigit, hex?]

theorem drop_utf8 (s t : Text) : (Text.utf8 (s ++ t)).drop (Text.size s) = Text.utf8 t := by
  rw [Text.utf8, List.flatMap_append]
  exact List.drop_left' (Text.length_utf8 s)

/-- **Matching by index takes the longest match, and never goes out of range,** whatever the bytes
are; and at the characters of a text it finds what the patterns find. -/
theorem matchers_longest (bytes : Bytes) (i : Nat) :
    (i < bytes.length → ∃ stop?, identifierEnd? bytes i = some stop? ∧
      identifier.IsLongest (characters bytes) i stop?) ∧
    (i < bytes.length → ∃ stop?, integerEnd? bytes i = some stop? ∧
      integer.IsLongest (characters bytes) i stop?) ∧
    (i ≤ bytes.length → ∃ stop?, hexEnd? bytes i = some stop? ∧
      hex.IsLongest (characters bytes) i stop?) ∧
    ∀ s t : Text, bytes = Text.utf8 (s ++ t) → i = Text.size s →
      (t ≠ [] → identifierEnd? bytes i = some ((identifier? t).map (i + ·))) ∧
      (t ≠ [] → integerEnd? bytes i = some ((integer? t).map (i + ·))) ∧
      hexEnd? bytes i = some ((hex? t).map (i + ·)) := by
  have hlength := length_characters bytes
  refine ⟨fun hi => ⟨_, identifierEnd?_eq hi, ?_⟩, fun hi => ⟨_, integerEnd?_eq hi, ?_⟩,
    fun hi => ⟨_, hexEnd?_eq hi, ?_⟩, ?_⟩
  · rw [characters_drop]
    exact isLongest_identifier (hlength ▸ Nat.le_of_lt hi)
  · rw [characters_drop]
    exact isLongest_integer (hlength ▸ Nat.le_of_lt hi)
  · rw [characters_drop]
    exact isLongest_hex (hlength ▸ hi)
  · rintro s t rfl rfl
    have hsize : (Text.utf8 (s ++ t)).length = s.size + t.size := by
      rw [Text.length_utf8, Text.size_append]
    have hinside (hne : t ≠ []) : s.size < (Text.utf8 (s ++ t)).length := by
      have hmore : (s ++ t).size ≠ s.size := fun h => hne (Text.eq_nil_of_size_append h)
      rw [Text.size_append] at hmore
      omega
    refine ⟨fun hne => ?_, fun hne => ?_, ?_⟩
    · rw [identifierEnd?_eq (hinside hne), drop_utf8, identifier?_utf8]
    · rw [integerEnd?_eq (hinside hne), drop_utf8, integer?_utf8]
    · rw [hexEnd?_eq (by omega), drop_utf8, hex?_utf8]

/-- Behind a character of two bytes a number ends before the underscores that no digit follows. No
identifier starts there, and no digits at the end. -/
theorem matchers_longest_danglingUnderscores :
    integer.IsLongest (characters (Text.utf8 "é-1__20__".toList)) 2 (some 8) ∧
      identifierEnd? (Text.utf8 "é-1__20__".toList) 2 = some none ∧
      hexEnd? (Text.utf8 "é-1__20__".toList) 10 = some none := by
  obtain ⟨-, hinteger, -, hinside⟩ := matchers_longest (Text.utf8 "é-1__20__".toList) 2
  obtain ⟨-, -, -, hend⟩ := matchers_longest (Text.utf8 "é-1__20__".toList) 10
  obtain ⟨hidentifier, hfound, -⟩ := hinside "é".toList "-1__20__".toList (by decide) (by decide)
  obtain ⟨-, -, hhex⟩ := hend "é-1__20__".toList [] (by decide) (by decide)
  obtain ⟨stop?, hstop, hlongest⟩ := hinteger (by decide)
  have hvalue : (integer? "-1__20__".toList).map (2 + ·) = some 8 := by decide
  rw [hfound (by decide), hvalue] at hstop
  obtain rfl := Option.some.inj hstop
  exact ⟨hlongest, hidentifier (by decide), hhex⟩

end ScriptBench.Pattern
