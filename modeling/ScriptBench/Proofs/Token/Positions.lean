import ScriptBench.Proofs.Text.Offset
import ScriptBench.Proofs.Token.Matchers
import ScriptBench.Token.Scan

/-! Scanning a line by byte positions.

A line is gone through from one position to the next, with indices into its bytes and slices of its
text. Each of them is checked: there is no result where an index is out of range, where a slice
cuts a character, or where a turn of the loop stays at its position. There always is a result, and
it is what scanning the line character by character finds (`positions?_eq`). -/
namespace ScriptBench.Token

/-- A token as a range of the line's bytes. -/
structure Span where
  kind : TokenKind
  start : Nat
  stop : Nat
deriving DecidableEq, Repr

/-- What is found at a position: a kind, where it stops, and the state that it leaves. -/
structure Found where
  kind : TokenKind
  stop : Nat
  next : LexState
deriving DecidableEq, Repr

/-! ### At a position -/

/-- The text from a byte offset on. -/
def textFrom? (t : Text) (i : Nat) : Option Text := (t.splitAt? i).map (·.2)

def startsWith (lead t : Text) : Bool := (Text.stripStart? lead t).isSome

/-- The byte offset of the first `part`. -/
def find? (part : Text) : Text → Option Nat
  | [] => none
  | c :: t => if startsWith part (c :: t) then some 0 else (find? part t).map (c.utf8Size + ·)

def foundInComment? (t : Text) (i : Nat) : Option Found := do
  let rest ← textFrom? t i
  let stop := match find? ['*', '/'] rest with
    | some k => i + k + 2
    | none => t.utf8.length
  let piece ← t.slice? i stop
  let isClosed := (Text.stripEnd? ['*', '/'] piece).isSome
  some ⟨.comment, stop, if isClosed then .root else .blockComment⟩

def foundInString? (state : LexState) (t : Text) (i : Nat) : Option Found := do
  let quote := if state = .doubleString then '"' else '\''
  let rest ← Pattern.from? t.utf8 i
  some (match rest.findIdx? (Char.ofUInt8 · == quote) with
    | some k => ⟨.string, i + k + 1, .root⟩
    | none => ⟨.string, t.utf8.length, state⟩)

def isSpace (c : Char) : Bool := c == ' ' || c == '\t' || c == '\r' || c == '\n'

/-- Where the hexadecimal literal ends that begins at an index, if one does. -/
def hexLiteralEnd? (bytes : Bytes) (rest : Text) (i : Nat) : Option (Option Nat) :=
  if startsWith ['0', 'x'] rest then Pattern.hexEnd? bytes (i + 2) else some none

/-- What begins with a character that begins no identifier, literal or space. -/
def mark (c : Char) (rest : Text) (i length : Nat) : Found :=
  if startsWith ['/', '*'] rest then ⟨.comment, i + 2, .blockComment⟩
  else if startsWith ['/', '/'] rest then ⟨.comment, length, .root⟩
  else if startsWith ['$', '('] rest then ⟨.evaluationDelimiter, i + 2, .root⟩
  else if c = '<' ∨ c = '>' then ⟨.pushDelimiter, i + 1, .root⟩
  else if c = ')' then ⟨.evaluationDelimiter, i + 1, .root⟩
  else if c = '"' then ⟨.string, i + 1, .doubleString⟩
  else if c = '\'' then ⟨.string, i + 1, .singleString⟩
  else ⟨.invalid, i + (rest.head?.map Char.utf8Size).getD 1, .root⟩

def foundInRoot? (t : Text) (i : Nat) : Option Found := do
  let rest ← textFrom? t i
  let first ← t.utf8[i]?
  match ← Pattern.identifierEnd? t.utf8 i with
  | some stop => some ⟨.identifier, stop, .root⟩
  | none =>
    match ← hexLiteralEnd? t.utf8 rest i with
    | some stop => some ⟨.hexLiteral, stop, .root⟩
    | none =>
      match ← Pattern.integerEnd? t.utf8 i with
      | some stop => some ⟨.integer, stop, .root⟩
      | none =>
        if isSpace (Char.ofUInt8 first) then do
          let bytes ← Pattern.from? t.utf8 i
          some ⟨.whitespace, i + Pattern.run isSpace bytes, .root⟩
        else some (mark (Char.ofUInt8 first) rest i t.utf8.length)

def found? (state : LexState) (t : Text) (i : Nat) : Option Found :=
  match state with
  | .root => foundInRoot? t i
  | .blockComment => foundInComment? t i
  | .doubleString | .singleString => foundInString? state t i

/-! ### Over the line -/

/-- Appends a token, or makes the last one longer if it is of the same kind. The last one stands
first. -/
def push (s : Span) : List Span → List Span
  | [] => [s]
  | last :: before =>
    if last.kind = s.kind ∧ last.stop = s.start ∧ s.kind ≠ .pushDelimiter then
      { last with stop := s.stop } :: before
    else s :: last :: before

def loop? (spans : List Span) (state : LexState) (t : Text) (i : Nat) :
    Option (List Span × LexState) :=
  if i < t.utf8.length then
    match found? state t i with
    | none => none
    | some f =>
      if i < f.stop then loop? (push ⟨f.kind, i, f.stop⟩ spans) f.next t f.stop else none
  else some (spans, state)
termination_by t.utf8.length - i

/-- The tokens of a line and the state at its end. -/
def positions? (state : LexState) (t : Text) : Option (List Span × LexState) :=
  (loop? [] state t 0).map fun result => (result.1.reverse, result.2)

/-- Where tokens stand that follow one another, the first one beginning at `start`. -/
def placed (start : Nat) : List Token → List Span
  | [] => []
  | t :: rest => ⟨t.kind, start, start + t.text.size⟩ :: placed (start + t.text.size) rest

theorem kind_placed (start : Nat) (ts : List Token) :
    (placed start ts).map (·.kind) = ts.map (·.kind) := by
  induction ts generalizing start with
  | nil => rfl
  | cons t ts ih => rw [placed, List.map_cons, List.map_cons, ih]

theorem spans_placed (start : Nat) (ts : List Token) :
    (placed start ts).map (fun s => (s.start, s.stop)) = spans start ts := by
  induction ts generalizing start with
  | nil => rfl
  | cons t ts ih => rw [placed, List.map_cons, ih, spans]

/-! ### Sizes of what is found -/

variable {c : Char} {s t rest : Text} {n : Nat}

/-- What a step takes, as it is found at a position. -/
def Step.found (step : Step) (i : Nat) (c : Char) (rest : Text) : Found :=
  ⟨step.kind, i + Text.size (c :: rest.take step.more), step.next⟩

theorem utf8Size_of_isNarrow {p : Char → Bool} (hp : Pattern.IsNarrow p) (hc : p c = true) :
    c.utf8Size = 1 := by
  have hsmall : c.toNat < 128 := Nat.lt_of_not_le fun hle => by
    rw [hp c hle] at hc
    cases hc
  exact Char.utf8Size_eq_one_iff.mpr (UInt32.le_iff_toNat_le.mpr (Nat.le_of_lt_succ hsmall))

theorem size_of_isNarrow {p : Char → Bool} (hp : Pattern.IsNarrow p) (ht : ∀ c ∈ t, p c = true) :
    t.size = t.length :=
  Text.size_of_narrow fun c hc => utf8Size_of_isNarrow hp (ht c hc)

/-- The longest match of a pattern without characters of more than one byte. -/
theorem size_take_of_longest {L : Text → Prop} {p : Char → Bool} (hp : Pattern.IsNarrow p)
    (hL : ∀ m, L m → ∀ c ∈ m, p c = true) (h : Regex.IsLongestFront L t (some n)) :
    Text.size (t.take n) = n := by
  obtain ⟨⟨m, hm, hmatch, rfl⟩, -⟩ := h
  rw [← List.prefix_iff_eq_take.mp hm]
  exact size_of_isNarrow hp (hL m hmatch)

theorem isNarrow_isNamePart : Pattern.IsNarrow Pattern.isNamePart :=
  (((Pattern.isNarrow_isLetter.or Pattern.isNarrow_isDigit).or
    (Pattern.isNarrow_beq (by decide))).or (Pattern.isNarrow_beq (by decide))).or
      (Pattern.isNarrow_beq (by decide))

theorem isNarrow_isSpace : Pattern.IsNarrow isSpace :=
  (((Pattern.isNarrow_beq (by decide)).or (Pattern.isNarrow_beq (by decide))).or
    (Pattern.isNarrow_beq (by decide))).or (Pattern.isNarrow_beq (by decide))

/-- What a pattern finds at the front of a text begins with the first character. -/
theorem size_cons_take {L : Text → Prop} {p : Char → Bool} (hp : Pattern.IsNarrow p)
    (hL : ∀ m, L m → m ≠ [] ∧ ∀ c ∈ m, p c = true)
    (h : Regex.IsLongestFront L (c :: rest) (some n)) :
    Text.size (c :: rest.take (n - 1)) = n := by
  have hpos : n ≠ 0 := by
    obtain ⟨⟨m, -, hmatch, hlength⟩, -⟩ := h
    rintro rfl
    exact (hL m hmatch).1 (List.length_eq_zero_iff.mp hlength)
  have htake : c :: rest.take (n - 1) = (c :: rest).take n := by
    rw [List.take_cons (Nat.pos_of_ne_zero hpos)]
  rw [htake]
  exact size_take_of_longest hp (fun m hm => (hL m hm).2) h

/-! ### Literals and identifiers -/

section Literals
open Pattern

theorem lt_length_utf8 (s : Text) (c : Char) (rest : Text) :
    s.size < (Text.utf8 (s ++ c :: rest)).length := by
  have hpos := c.utf8Size_pos
  rw [Text.length_utf8, Text.size_append, Text.size]
  omega

theorem identifierEnd?_utf8 (s : Text) (c : Char) (rest : Text) :
    identifierEnd? (Text.utf8 (s ++ c :: rest)) s.size =
      some ((identifier? (c :: rest)).map (s.size + ·)) := by
  rw [identifierEnd?_eq (lt_length_utf8 s c rest), drop_utf8, identifier?_utf8]

theorem integerEnd?_utf8 (s : Text) (c : Char) (rest : Text) :
    integerEnd? (Text.utf8 (s ++ c :: rest)) s.size =
      some ((integer? (c :: rest)).map (s.size + ·)) := by
  rw [integerEnd?_eq (lt_length_utf8 s c rest), drop_utf8, integer?_utf8]

theorem hexLiteralEnd?_utf8 (s t : Text) :
    hexLiteralEnd? (Text.utf8 (s ++ t)) t s.size = some ((hexLiteral? t).map (s.size + ·)) := by
  unfold hexLiteral?
  split
  · rename_i rest
    have hstart : startsWith ['0', 'x'] ('0' :: 'x' :: rest) = true := rfl
    have hbytes : s ++ '0' :: 'x' :: rest = (s ++ ['0', 'x']) ++ rest := by simp
    have hsize : s.size + 2 = Text.size (s ++ ['0', 'x']) := by
      rw [Text.size_append]
      rfl
    have hinside : Text.size (s ++ ['0', 'x']) ≤
        (Text.utf8 ((s ++ ['0', 'x']) ++ rest)).length := by
      rw [Text.length_utf8, Text.size_append (s ++ ['0', 'x'])]
      exact Nat.le_add_right ..
    rw [hexLiteralEnd?, if_pos hstart, hbytes, hsize, hexEnd?_eq hinside, drop_utf8, hex?_utf8,
      ← hsize, Option.map_map]
    refine congrArg (fun f => some (Option.map f _)) (funext fun n => ?_)
    exact Nat.add_right_comm s.size 2 n
  · rename_i hother
    have hstart : startsWith ['0', 'x'] t = false := by
      rw [startsWith, Option.isSome_eq_false_iff, Option.isNone_iff_eq_none]
      cases hstrip : Text.stripStart? ['0', 'x'] t with
      | none => rfl
      | some rest => exact absurd (Text.stripStart?_eq_some_iff.mp hstrip) (hother rest)
    rw [hexLiteralEnd?, hstart]
    rfl

theorem size_of_identifier? (h : identifier? (c :: rest) = some n) :
    Text.size (c :: rest.take (n - 1)) = n := by
  have hlongest := longest_identifier? (c :: rest)
  rw [h] at hlongest
  refine size_cons_take isNarrow_isNamePart (fun m hm => ?_) hlongest
  obtain ⟨d, m, rfl, hd, -, hm⟩ := hm
  have hfirst : isNamePart d = true := by
    rw [isNameStart, Bool.or_eq_true] at hd
    simp only [isNamePart, isAlphanumeric, Bool.or_eq_true]
    obtain hd | hd := hd
    · exact .inl (.inl (.inl (.inl hd)))
    · exact .inl (.inr hd)
  exact ⟨List.cons_ne_nil d m, List.forall_mem_cons.mpr ⟨hfirst, hm⟩⟩

theorem size_of_integer? (h : integer? (c :: rest) = some n) :
    Text.size (c :: rest.take (n - 1)) = n := by
  have hlongest := longest_integer? (c :: rest)
  rw [h] at hlongest
  have hnarrow : IsNarrow fun c => (isDigit c || c == '_') || c == '-' :=
    (isNarrow_isDigit.or (isNarrow_beq (by decide))).or (isNarrow_beq (by decide))
  refine size_cons_take hnarrow (fun m hm => ?_) hlongest
  obtain ⟨sign, m, rfl, hsign, d, k, rfl, hd, hk⟩ := hm
  refine ⟨List.append_ne_nil_of_right_ne_nil _ (List.cons_ne_nil d k), ?_⟩
  have hdigits : ∀ e ∈ d :: k, (isDigit e || e == '_') = true :=
    (EndsOnDigit.digit hd hk).mem
  intro e he
  obtain he | he := List.mem_append.mp he
  · obtain rfl | rfl := hsign
    · cases he
    · rw [List.mem_singleton.mp he]
      rfl
  · rw [hdigits e he, Bool.true_or]

theorem size_of_hexLiteral? (h : hexLiteral? (c :: rest) = some n) :
    Text.size (c :: rest.take (n - 1)) = n := by
  unfold hexLiteral? at h
  split at h
  · rename_i tail heq
    obtain ⟨rfl, rfl⟩ := List.cons.inj heq
    obtain ⟨k, hk, rfl⟩ := Option.map_eq_some_iff.mp h
    have hlongest := longest_hex? tail
    rw [hk] at hlongest
    have hnarrow : IsNarrow fun c => isHexDigit c || c == '_' :=
      isNarrow_isHexDigit.or (isNarrow_beq (by decide))
    have hdigits : Text.size (tail.take k) = k := by
      refine size_take_of_longest hnarrow (fun m hm => ?_) hlongest
      obtain ⟨d, m, rfl, hd, -, hm⟩ := hm
      exact (EndsOnDigit.digit hd hm).mem
    show Text.size ('0' :: ('x' :: tail).take (k + 1)) = k + 2
    rw [List.take_succ_cons, Text.size, Text.size, hdigits, Nat.add_comm k 2, ← Nat.add_assoc]
    rfl
  · cases h

end Literals

/-! ### Outside of strings and comments -/

theorem textFrom?_append (s t : Text) : textFrom? (s ++ t) s.size = some t := by
  rw [textFrom?, Text.splitAt?_append]
  rfl

/-- The byte at a position is the first of its character. -/
theorem exists_first (s : Text) (c : Char) (rest : Text) :
    ∃ b, (Text.utf8 (s ++ c :: rest))[s.size]? = some b ∧
      (Char.ofUInt8 b = c ∨ 128 ≤ (Char.ofUInt8 b).toNat ∧ 128 ≤ c.toNat) := by
  have hhead : (Text.utf8 (s ++ c :: rest))[s.size]? = (Text.utf8 (c :: rest)).head? := by
    rw [← Pattern.drop_utf8 s (c :: rest), List.head?_drop]
  have hmap : (Pattern.characters (Text.utf8 (c :: rest))).head? =
      (Text.utf8 (c :: rest)).head?.map Char.ofUInt8 := List.head?_map
  rw [hhead]
  obtain hc | hc := Nat.lt_or_ge c.toNat 128
  · rw [Pattern.characters_utf8_of_lt hc] at hmap
    obtain ⟨b, hb, hchar⟩ := Option.map_eq_some_iff.mp hmap.symm
    exact ⟨b, hb, .inl hchar⟩
  · obtain ⟨d, tail, heq, hd⟩ := Pattern.exists_characters_utf8 hc rest
    rw [heq] at hmap
    obtain ⟨b, hb, hchar⟩ := Option.map_eq_some_iff.mp hmap.symm
    exact ⟨b, hb, .inr ⟨hchar ▸ hd, hc⟩⟩

/-- Spaces are found as bytes and as characters. -/
theorem isSpace_first {b : UInt8}
    (hb : Char.ofUInt8 b = c ∨ 128 ≤ (Char.ofUInt8 b).toNat ∧ 128 ≤ c.toNat) :
    isSpace (Char.ofUInt8 b) = isSpace c := by
  obtain rfl | ⟨hbyte, hc⟩ := hb
  · rfl
  · rw [isNarrow_isSpace _ hbyte, isNarrow_isSpace _ hc]

theorem blanks_singleton_iff (c : Char) : blanks [c] = 1 ↔ isSpace c = true := by
  show ([c].takeWhile isSpace).length = 1 ↔ _
  cases hc : isSpace c <;> simp [hc]

theorem size_cons_takeBlanks (hc : isSpace c = true) (rest : Text) :
    Text.size (c :: rest.take (blanks rest)) = ((c :: rest).takeWhile isSpace).length := by
  have htake : rest.take (blanks rest) = rest.takeWhile isSpace :=
    (List.prefix_iff_eq_take.mp (List.takeWhile_prefix isSpace)).symm
  rw [htake, ← List.takeWhile_cons_of_pos hc]
  exact size_of_isNarrow isNarrow_isSpace (List.all_eq_true.mp List.all_takeWhile)

theorem startsWith_pair_iff {a b : Char} :
    startsWith [a, b] (c :: rest) = true ↔ c = a ∧ rest.head? = some b := by
  simp only [startsWith, Option.isSome_iff_exists, Text.stripStart?_eq_some_iff]
  cases rest with
  | nil => simp
  | cons d rest => simp

theorem mark_eq (s : Text) (c : Char) (rest : Text) {b : UInt8}
    (hb : Char.ofUInt8 b = c ∨ 128 ≤ (Char.ofUInt8 b).toNat ∧ 128 ≤ c.toNat) :
    mark (Char.ofUInt8 b) (c :: rest) s.size (Text.utf8 (s ++ c :: rest)).length =
      (punctuation c rest).found s.size c rest := by
  have hsame (hc : c.toNat < 128) : Char.ofUInt8 b = c :=
    hb.resolve_right fun h => absurd h.2 (Nat.not_le_of_lt hc)
  have hother {e : Char} (he : e.toNat < 128) (hne : c ≠ e) : Char.ofUInt8 b ≠ e := by
    rintro rfl
    obtain heq | hwide := hb
    · exact hne heq.symm
    · exact absurd hwide.1 (Nat.not_le_of_lt he)
  have hpair {a d : Char} (h : ∀ tail, c = a → rest = d :: tail → False) :
      startsWith [a, d] (c :: rest) = false := by
    refine Bool.eq_false_iff.mpr fun hstarts => ?_
    obtain ⟨hc, hd⟩ := startsWith_pair_iff.mp hstarts
    obtain ⟨tail, htail⟩ := List.head?_eq_some_iff.mp hd
    exact h tail hc htail
  rw [Text.length_utf8, Text.size_append]
  unfold punctuation
  split
  · simp [mark, startsWith_pair_iff, Step.found, Text.size]
    rfl
  · simp [mark, startsWith_pair_iff, Step.found, Text.size]
  · simp [mark, startsWith_pair_iff, Step.found, Text.size]
    rfl
  case h_9 hlt hgt hclose hdouble hsingle hcomment hslashes hopen =>
    simp [mark, hpair hcomment, hpair hslashes, hpair hopen, hother (e := '<') (by decide) hlt,
      hother (e := '>') (by decide) hgt, hother (e := ')') (by decide) hclose,
      hother (e := '"') (by decide) hdouble, hother (e := '\'') (by decide) hsingle,
      Step.found, Text.size]
  -- A single mark stands for its own byte.
  all_goals
    rw [hsame (by decide)]
    simp [mark, startsWith_pair_iff, Step.found, Text.size]
    rfl

/-- Outside of strings and comments, what is found by positions is what a step takes. -/
theorem foundInRoot?_eq (s : Text) (c : Char) (rest : Text) :
    foundInRoot? (s ++ c :: rest) s.size = some ((rootStep c rest).found s.size c rest) := by
  obtain ⟨b, hfirst, hb⟩ := exists_first s c rest
  have hinside := Nat.le_of_lt (lt_length_utf8 s c rest)
  rw [foundInRoot?, textFrom?_append, hfirst, rootStep]
  simp only [Option.bind_eq_bind, Option.bind_some, identifierEnd?_utf8, hexLiteralEnd?_utf8,
    integerEnd?_utf8, isSpace_first hb, Pattern.from?_eq hinside, Pattern.drop_utf8]
  cases hidentifier : Pattern.identifier? (c :: rest) with
  | some n => exact congrArg some (by simp [Step.found, size_of_identifier? hidentifier])
  | none =>
    cases hhex : hexLiteral? (c :: rest) with
    | some n => exact congrArg some (by simp [Step.found, size_of_hexLiteral? hhex])
    | none =>
      cases hinteger : Pattern.integer? (c :: rest) with
      | some n => exact congrArg some (by simp [Step.found, size_of_integer? hinteger])
      | none =>
        by_cases hspace : isSpace c = true
        · have hrun : Pattern.run isSpace (Text.utf8 (c :: rest)) =
              Text.size (c :: rest.take (blanks rest)) := by
            rw [Pattern.run_eq, Pattern.takeWhile_utf8 isNarrow_isSpace,
              size_cons_takeBlanks hspace]
          simp only [Option.map_none, hspace, (blanks_singleton_iff c).mpr hspace, if_true, hrun]
          rfl
        · have hblanks := mt (blanks_singleton_iff c).mp hspace
          simp only [Option.map_none, hspace, hblanks, if_false, mark_eq s c rest hb]
          rfl

/-! ### Inside of comments and strings -/

/-- A comment ends at the first `*/`, by bytes and by characters, or there is none. -/
theorem commentEnd?_cases (t : Text) :
    (∃ front tail, t = front ++ ['*', '/'] ++ tail ∧ commentEnd? t = some (front.length + 2) ∧
      find? ['*', '/'] t = some front.size) ∨
    commentEnd? t = none ∧ find? ['*', '/'] t = none ∧ Text.stripEnd? ['*', '/'] t = none := by
  induction t using commentEnd?.induct with
  | case1 tail => exact .inl ⟨[], tail, rfl, rfl, rfl⟩
  | case2 c rest hopen ih =>
    have hstarts : startsWith ['*', '/'] (c :: rest) = false := by
      refine Bool.eq_false_iff.mpr fun hstarts => ?_
      obtain ⟨hc, hd⟩ := startsWith_pair_iff.mp hstarts
      obtain ⟨tail, htail⟩ := List.head?_eq_some_iff.mp hd
      exact hopen tail hc htail
    have hend : commentEnd? (c :: rest) = (commentEnd? rest).map (· + 1) := by
      rw [commentEnd?]
      exact hopen
    rw [hend, find?, hstarts]
    obtain ⟨front, tail, rfl, hcount, hfind⟩ | ⟨hcount, hfind, hstrip⟩ := ih
    · refine .inl ⟨c :: front, tail, rfl, ?_, ?_⟩
      · rw [hcount]
        rfl
      · rw [hfind]
        rfl
    · refine .inr ⟨by rw [hcount]; rfl, by rw [hfind]; rfl, ?_⟩
      refine Option.eq_none_iff_forall_ne_some.mpr fun front hfront => ?_
      rw [Text.stripEnd?_eq_some_iff] at hfront
      cases front with
      | nil =>
        obtain ⟨hc, htail⟩ := List.cons.inj hfront
        exact hopen [] hc htail
      | cons d front =>
        rw [Text.stripEnd?_eq_some_iff.mpr (List.cons.inj hfront).2] at hstrip
        cases hstrip
  | case3 => exact .inr ⟨rfl, rfl, rfl⟩

theorem foundInComment?_eq (s : Text) (c : Char) (rest : Text) :
    foundInComment? (s ++ c :: rest) s.size =
      some ((step .blockComment c rest).found s.size c rest) := by
  rw [foundInComment?, textFrom?_append, step]
  obtain ⟨front, tail, hsplit, hcount, hfind⟩ | ⟨hcount, hfind, hstrip⟩ :=
    commentEnd?_cases (c :: rest)
  · have htake : c :: rest.take (front.length + 1) = front ++ ['*', '/'] := by
      rw [← List.take_succ_cons, hsplit]
      exact List.take_left' (by simp)
    have hsize : Text.size (front ++ ['*', '/']) = front.size + 2 := by
      rw [Text.size_append]
      rfl
    have hslice := Text.slice?_append s (front ++ ['*', '/']) tail
    rw [hsize, ← hsplit, ← Nat.add_assoc] at hslice
    simp only [Option.bind_eq_bind, Option.bind_some, hcount, hfind, hslice,
      Text.stripEnd?_append, insideStep, Step.found]
    rw [show front.length + 2 - 1 = front.length + 1 from rfl, htake, hsize, ← Nat.add_assoc]
    rfl
  · have hslice := Text.slice?_append s (c :: rest) []
    rw [List.append_nil] at hslice
    simp only [Option.bind_eq_bind, Option.bind_some, hcount, hfind, Text.length_utf8,
      Text.size_append, hslice, hstrip, insideStep, Step.found, List.take_length]
    rfl

/-- A character of more than one byte has no byte of a shorter one. -/
theorem le_toNat_of_mem_utf8EncodeChar {c : Char} (hc : 128 ≤ c.toNat) :
    ∀ b ∈ String.utf8EncodeChar c, 128 ≤ b.toNat := by
  have hwide : ¬ c.val.toNat ≤ 127 := Nat.not_le.mpr hc
  have hbyte (n : Nat) (hlow : 128 ≤ n) (hhigh : n < 256) : 128 ≤ (UInt8.ofNat n).toNat := by
    rwa [UInt8.toNat_ofNat', Nat.mod_eq_of_lt hhigh]
  rw [String.utf8EncodeChar, if_neg hwide]
  split
  · simp only [List.forall_mem_cons]
    exact ⟨hbyte _ (by omega) (by omega), hbyte _ (by omega) (by omega), nofun⟩
  · split
    · simp only [List.forall_mem_cons]
      exact ⟨hbyte _ (by omega) (by omega), hbyte _ (by omega) (by omega),
        hbyte _ (by omega) (by omega), nofun⟩
    · simp only [List.forall_mem_cons]
      exact ⟨hbyte _ (by omega) (by omega), hbyte _ (by omega) (by omega),
        hbyte _ (by omega) (by omega), hbyte _ (by omega) (by omega), nofun⟩

/-- A character of one byte that is not in a text is not among its bytes. -/
theorem findIdx?_utf8_of_not_mem {q : Char} (hq : q.toNat < 128) {t : Text} (ht : q ∉ t) :
    t.utf8.findIdx? (Char.ofUInt8 · == q) = none := by
  rw [List.findIdx?_eq_none_iff]
  intro b hb
  obtain ⟨c, hc, hb⟩ := List.mem_flatMap.mp hb
  refine beq_eq_false_iff_ne.mpr fun heq => ?_
  obtain hnarrow | hwide := Nat.lt_or_ge c.toNat 128
  · have hbytes := Pattern.characters_utf8_of_lt hnarrow []
    have hmem : Char.ofUInt8 b ∈ Pattern.characters (Text.utf8 [c]) := by
      refine List.mem_map_of_mem ?_
      rw [Text.utf8, List.flatMap_singleton]
      exact hb
    rw [hbytes, heq] at hmem
    exact ht (List.mem_singleton.mp hmem ▸ hc)
  · have hle := le_toNat_of_mem_utf8EncodeChar hwide b hb
    rw [← Pattern.toNat_ofUInt8, heq] at hle
    exact absurd hle (Nat.not_le_of_lt hq)

theorem quoteEnd?_cases (q : Char) (t : Text) :
    (∃ front tail, t = front ++ q :: tail ∧ q ∉ front ∧
      quoteEnd? q t = some (front.length + 1)) ∨ q ∉ t ∧ quoteEnd? q t = none := by
  induction t with
  | nil => exact .inr ⟨nofun, rfl⟩
  | cons c t ih =>
    rw [quoteEnd?]
    by_cases hc : c = q
    · exact .inl ⟨[], t, by rw [hc]; rfl, nofun, if_pos hc⟩
    · rw [if_neg hc]
      obtain ⟨front, tail, rfl, hfront, hcount⟩ | ⟨hmem, hcount⟩ := ih
      · refine .inl ⟨c :: front, tail, rfl, ?_, by rw [hcount]; rfl⟩
        exact List.not_mem_cons_of_ne_of_not_mem (Ne.symm hc) hfront
      · exact .inr ⟨List.not_mem_cons_of_ne_of_not_mem (Ne.symm hc) hmem, by rw [hcount]; rfl⟩

/-- Where a string ends, by bytes and by characters. -/
theorem foundInString?_eq {state : LexState} {q : Char} (hq : q.toNat < 128)
    (hquote : (if state = .doubleString then '"' else '\'') = q) (s : Text) (c : Char)
    (rest : Text) : foundInString? state (s ++ c :: rest) s.size =
      some ((insideStep .string state rest (quoteEnd? q (c :: rest))).found s.size c rest) := by
  have hinside := Nat.le_of_lt (lt_length_utf8 s c rest)
  rw [foundInString?, hquote, Pattern.from?_eq hinside, Pattern.drop_utf8]
  simp only [Option.bind_eq_bind, Option.bind_some]
  obtain ⟨front, tail, hsplit, hfront, hcount⟩ | ⟨hmem, hcount⟩ := quoteEnd?_cases q (c :: rest)
  · have hone : q.utf8Size = 1 :=
      Char.utf8Size_eq_one_iff.mpr (UInt32.le_iff_toNat_le.mpr (Nat.le_of_lt_succ hq))
    have hindex : (Text.utf8 (c :: rest)).findIdx? (Char.ofUInt8 · == q) = some front.size := by
      have hhead : ∃ b bytes, Text.utf8 (q :: tail) = b :: bytes ∧ Char.ofUInt8 b = q := by
        have hbytes := Pattern.characters_utf8_of_lt hq tail
        cases hutf8 : Text.utf8 (q :: tail) with
        | nil =>
          rw [hutf8] at hbytes
          cases hbytes
        | cons b bytes =>
          rw [hutf8] at hbytes
          exact ⟨b, bytes, rfl, (List.cons.inj hbytes).1⟩
      obtain ⟨b, bytes, hbytes, hb⟩ := hhead
      have happend : Text.utf8 (front ++ q :: tail) = front.utf8 ++ Text.utf8 (q :: tail) :=
        List.flatMap_append
      rw [hsplit, happend, List.findIdx?_append, findIdx?_utf8_of_not_mem hq hfront, hbytes,
        List.findIdx?_cons, hb, beq_self_eq_true, if_pos rfl, ← Text.length_utf8]
      simp
    have htake : c :: rest.take front.length = front ++ [q] := by
      rw [← List.take_succ_cons, hsplit, List.append_cons]
      exact List.take_left' (by simp)
    have hsize : Text.size (front ++ [q]) = front.size + 1 := by
      rw [Text.size_append, Text.size, hone]
      rfl
    simp only [hindex, hcount, insideStep, Step.found, Nat.add_sub_cancel, htake, hsize,
      Nat.add_assoc]
  · simp only [findIdx?_utf8_of_not_mem hq hmem, hcount, insideStep, Step.found, List.take_length,
      Text.length_utf8, Text.size_append]

/-- What is found by positions is what a step takes. -/
theorem found?_eq (state : LexState) (s : Text) (c : Char) (rest : Text) :
    found? state (s ++ c :: rest) s.size = some ((step state c rest).found s.size c rest) := by
  cases state with
  | root => exact foundInRoot?_eq s c rest
  | blockComment => exact foundInComment?_eq s c rest
  | doubleString => exact foundInString?_eq (by decide) rfl s c rest
  | singleString => exact foundInString?_eq (by decide) rfl s c rest

/-! ### The loop -/

/-- Joining from the front. -/
theorem join_cons_cons (t u : Token) (rest : List Token) : join (t :: u :: rest) =
    if t.kind = u.kind ∧ t.kind ≠ .pushDelimiter then join (⟨t.kind, t.text ++ u.text⟩ :: rest)
    else t :: join (u :: rest) := by
  simp only [join]
  cases join rest with
  | nil => grind
  | cons v tail => grind

/-- Appending tokens one by one joins them. -/
theorem reverse_foldl_push (last : Span) (before : List Span) {text : Text}
    (hstop : last.stop = last.start + text.size) (ts : List Token) :
    ((placed last.stop ts).foldl (fun spans s => push s spans) (last :: before)).reverse =
      before.reverse ++ placed last.start (join (⟨last.kind, text⟩ :: ts)) := by
  induction ts generalizing last before text with
  | nil =>
    show (last :: before).reverse = before.reverse ++ [⟨last.kind, last.start, _ + text.size⟩]
    rw [← hstop, List.reverse_cons]
  | cons u ts ih =>
    rw [placed, List.foldl_cons, push, join_cons_cons]
    by_cases hsame : last.kind = u.kind ∧ last.kind ≠ .pushDelimiter
    · have hstop' : last.stop + u.text.size = last.start + Text.size (text ++ u.text) := by
        rw [Text.size_append, hstop, Nat.add_assoc]
      rw [if_pos ⟨hsame.1, rfl, hsame.1 ▸ hsame.2⟩, if_pos hsame]
      exact ih { last with stop := last.stop + u.text.size } before hstop'
    · have hapart : ¬ (last.kind = u.kind ∧ last.stop = last.stop ∧ u.kind ≠ .pushDelimiter) :=
        fun h => hsame ⟨h.1, h.1.symm ▸ h.2.2⟩
      rw [if_neg hapart, if_neg hsame, placed, ← hstop]
      have hrest := ih ⟨u.kind, last.stop, last.stop + u.text.size⟩ (last :: before) rfl
      rw [List.reverse_cons, List.append_assoc] at hrest
      exact hrest

/-- The loop goes through the steps. -/
theorem loop?_eq (spans : List Span) (state : LexState) (s t : Text) :
    loop? spans state (s ++ t) s.size =
      some ((placed s.size (steps state t).1).foldl (fun spans s => push s spans) spans,
        (steps state t).2) := by
  induction hlen : t.length using Nat.strongRecOn generalizing spans state s t with
  | ind n ih =>
    cases t with
    | nil =>
      have hend : ¬ s.size < (Text.utf8 (s ++ [])).length := by
        rw [Text.length_utf8, List.append_nil]
        exact Nat.lt_irrefl _
      rw [loop?, if_neg hend, steps]
      rfl
    | cons c rest =>
      have hforward : s.size <
          s.size + Text.size (c :: rest.take (step state c rest).more) := by
        have hpos := c.utf8Size_pos
        rw [Text.size]
        omega
      have hrest := ih _ (by rw [← hlen, List.length_cons, List.length_drop]; omega)
        (push ⟨(step state c rest).kind, s.size,
          s.size + Text.size (c :: rest.take (step state c rest).more)⟩ spans)
        (step state c rest).next (s ++ c :: rest.take (step state c rest).more)
        (rest.drop (step state c rest).more) rfl
      rw [List.append_assoc, List.cons_append, List.take_append_drop, Text.size_append] at hrest
      rw [loop?, if_pos (lt_length_utf8 s c rest), found?_eq]
      simp only [Step.found, hforward, if_true, hrest]
      rw [steps, placed, List.foldl_cons]

/-- **Going through a line by positions always has a result, which is the scanned line:** no index
is out of range, no slice cuts a character, and every turn gets on. -/
theorem positions?_eq (state : LexState) (t : Text) :
    positions? state t = some (placed 0 (scan state t).1, (scan state t).2) := by
  have hloop := loop?_eq [] state [] t
  rw [List.nil_append] at hloop
  rw [positions?, show (0 : Nat) = Text.size [] from rfl, hloop, scan, Option.map_some]
  cases hsteps : (steps state t).1 with
  | nil => rfl
  | cons u ts =>
    have hfold := reverse_foldl_push ⟨u.kind, 0, 0 + u.text.size⟩ [] rfl ts
    exact congrArg (fun spans => some (spans, (steps state t).2)) hfold

end ScriptBench.Token
