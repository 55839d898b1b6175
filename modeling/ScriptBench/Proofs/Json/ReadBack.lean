import ScriptBench.Json.Printer
import ScriptBench.Json.Reader
import ScriptBench.Proofs.Literal.Digits

/-! JSON that is printed is read back.

What is printed over several lines is read back as the same value, whatever its depth and
width, if its numbers are naturals and its strings hold no bare control characters. A reader
that is given more text than the value's own stops at the end of the value; only a number
could go on, so what follows must not look like the rest of one. -/
namespace ScriptBench

namespace JsonPiece

/-- A piece that its printed form is read back as: a character that need not be escaped or has
a letter for it, or a code unit of 16 bits. -/
def Legible : JsonPiece → Prop
  | char c => 0x20 ≤ c.toNat ∨ (escapeLetter? c).isSome
  | unit n => n < 0x10000

theorem legible_ofChar (c : Char) : (ofChar c).Legible := by
  unfold ofChar
  split
  · rename_i hc
    simp only [Bool.and_eq_true, decide_eq_true_eq] at hc
    show c.toNat < 0x10000
    omega
  · rename_i hc
    show 0x20 ≤ c.toNat ∨ (escapeLetter? c).isSome
    by_cases hcontrol : c.toNat < 0x20
    · right
      simpa [hcontrol, Option.isSome_iff_ne_none] using hc
    · left
      omega

/-- A code unit outside of the surrogates stands for a character of its own. -/
theorem decode?_unit {n : Nat} (h : n < 0xd800) (rest : List JsonPiece) :
    decode? (unit n :: rest) = (decode? rest).map (Char.ofNat n :: ·) := by
  have hhi : isHighSurrogate n = false := by simp [isHighSurrogate]; omega
  have hlo : isLowSurrogate n = false := by simp [isLowSurrogate]; omega
  cases rest with
  | nil => simp [decode?, hhi, hlo]
  | cons p rest =>
    cases p with
    | char c => simp [decode?, hhi, hlo]
    | unit m => simp [decode?, hhi, hlo]

theorem decode?_ofChar (c : Char) (rest : List JsonPiece) :
    decode? (ofChar c :: rest) = (decode? rest).map (c :: ·) := by
  unfold ofChar
  split
  · rename_i hc
    simp only [Bool.and_eq_true, decide_eq_true_eq] at hc
    rw [decode?_unit (by omega), Char.ofNat_toNat]
  · rfl

theorem decode?_map_ofChar (t : Text) : decode? (t.map ofChar) = some t := by
  induction t with
  | nil => rfl
  | cons c t ih => rw [List.map_cons, decode?_ofChar, ih, Option.map_some]

end JsonPiece

namespace Json

/-! ### Strings -/

/-- An escape letter stands for the character it was chosen for. -/
theorem escaped?_of_escapeLetter? {c letter : Char} (h : JsonPiece.escapeLetter? c = some letter) :
    escaped? letter = some c ∧ letter ≠ 'u' := by
  unfold JsonPiece.escapeLetter? at h
  repeat' split at h
  all_goals cases h
  all_goals
    subst_vars
    exact ⟨rfl, by decide⟩

theorem codeUnit?_hexDigit {n : Nat} (h : n < 0x10000) :
    codeUnit? (Bytes.hexDigit (n / 4096 % 16)) (Bytes.hexDigit (n / 256 % 16))
      (Bytes.hexDigit (n / 16 % 16)) (Bytes.hexDigit (n % 16)) = some n := by
  have hdigit (k : Nat) : Bytes.hexValue? (Bytes.hexDigit (k % 16)) = some (k % 16) :=
    Bytes.hexValue?_hexDigit _ (Nat.mod_lt _ (by decide))
  rw [codeUnit?, hdigit, hdigit, hdigit, hdigit]
  refine congrArg some ?_
  omega

theorem readString_printPiece {p : JsonPiece} (h : p.Legible) (t : Text) :
    readString (printPiece p ++ t) =
      (readString t).map fun (pieces, rest) => (p :: pieces, rest) := by
  cases p with
  | unit n =>
    simp only [printPiece, List.cons_append, List.nil_append]
    rw [readString, codeUnit?_hexDigit h]
    cases readString t <;> rfl
  | char c =>
    unfold printPiece
    dsimp only
    split
    · rename_i letter hletter
      obtain ⟨hescaped, hu⟩ := escaped?_of_escapeLetter? hletter
      simp only [List.cons_append, List.nil_append]
      rw [readString, hescaped]
      · cases readString t <;> rfl
      · rintro a b c d rest rfl
        exact absurd rfl hu
    · rename_i hletter
      have hplain : ¬ c.toNat < 0x20 := by
        obtain hc | hc := h
        · omega
        · rw [hletter] at hc
          cases hc
      have hquote : c ≠ '"' := by
        rintro rfl
        cases hletter
      have hslash : c ≠ '\\' := by
        rintro rfl
        cases hletter
      simp only [List.cons_append, List.nil_append]
      rw [readString]
      · simp only [hplain, hslash, decide_false, Bool.false_or, beq_iff_eq, if_false]
        cases readString t <;> rfl
      · exact hquote
      · exact fun _ _ _ _ _ hc => absurd hc hslash
      · exact fun _ _ hc => absurd hc hslash

theorem readString_printString {pieces : List JsonPiece} (h : ∀ p ∈ pieces, p.Legible) (t : Text) :
    readString (pieces.flatMap printPiece ++ '"' :: t) = some (pieces, t) := by
  induction pieces with
  | nil => rfl
  | cons p pieces ih =>
    have hp := h p (List.mem_cons_self ..)
    have hrest : ∀ q ∈ pieces, q.Legible := fun q hq => h q (List.mem_cons_of_mem p hq)
    rw [List.flatMap_cons, List.append_assoc, readString_printPiece hp, ih hrest]
    rfl

/-! ### Blanks -/

/-- The start of a line is passed over. -/
theorem skipBlanks_newline (depth : Nat) (t : Text) :
    skipBlanks (newline depth ++ t) = skipBlanks t := by
  have hblank : ∀ c ∈ newline depth, isBlank c = true := by
    intro c hc
    obtain rfl | hc := List.mem_cons.mp hc
    · rfl
    · rw [List.eq_of_mem_replicate hc]
      rfl
  exact List.dropWhile_append_of_pos hblank

theorem skipBlanks_cons {c : Char} (h : isBlank c = false) (t : Text) :
    skipBlanks (c :: t) = c :: t := by
  rw [skipBlanks, List.dropWhile_cons_of_neg (by simp [h])]

theorem readValue_newline (fuel depth : Nat) (t : Text) :
    readValue fuel (newline depth ++ t) = readValue fuel t := by
  cases fuel with
  | zero => rfl
  | succ fuel => rw [readValue, readValue, skipBlanks_newline]

/-- So is the blank after a colon. -/
theorem readValue_blank (fuel : Nat) (t : Text) : readValue fuel (' ' :: t) = readValue fuel t := by
  cases fuel with
  | zero => rfl
  | succ fuel =>
    have hblank : skipBlanks (' ' :: t) = skipBlanks t := rfl
    rw [readValue, readValue, hblank]

theorem readItems_newline (fuel depth : Nat) (t : Text) :
    readItems fuel (newline depth ++ t) = readItems fuel t := by
  cases fuel with
  | zero => rfl
  | succ fuel => rw [readItems, readItems, readValue_newline]

theorem readMembers_newline (fuel depth : Nat) (t : Text) :
    readMembers fuel (newline depth ++ t) = readMembers fuel t := by
  cases fuel with
  | zero => rfl
  | succ fuel => rw [readMembers, readMembers, skipBlanks_newline]

/-! ### Numbers -/

/-- What may follow a number: neither a digit nor a point or an exponent. -/
def EndsNumber (t : Text) : Prop :=
  ∀ c ∈ t.head?, Pattern.isDigit c = false ∧ c ≠ '.' ∧ c ≠ 'e' ∧ c ≠ 'E'

theorem digits_ne_nil (n : Nat) : digits n ≠ [] := Nat.toDigits_ne_nil

theorem isDigit_of_mem_digits {n : Nat} {c : Char} (h : c ∈ digits n) : Pattern.isDigit c = true :=
  Decimal.isDigit_of_mem_toDigits h

theorem head?_digits_append (n : Nat) (t : Text) : (digits n ++ t).head? = (digits n).head? := by
  obtain ⟨c, rest, hdigits⟩ := List.exists_cons_of_ne_nil (digits_ne_nil n)
  rw [hdigits]
  rfl

/-- Only zero is written with a zero in front. -/
theorem head?_digits {n : Nat} (h : (digits n).head? = some '0') : n = 0 := by
  induction n using Nat.strongRecOn with
  | ind n ih =>
    rw [digits, Nat.toDigits_eq_if (by decide)] at h
    split at h
    · have hdigit : n.digitChar = '0' := by simpa using h
      exact Nat.digitChar_eq_zero.mp hdigit
    · have hfirst := head?_digits_append (n / 10) [(n % 10).digitChar]
      have hzero := ih (n / 10) (by omega) (hfirst.symm.trans h)
      omega

theorem readFraction_of_endsNumber {t : Text} (h : EndsNumber t) :
    readFraction t = some ([], t) := by
  unfold readFraction
  split
  · exact absurd rfl (h '.' rfl).2.1
  · rfl

theorem readExponent_of_endsNumber {t : Text} (h : EndsNumber t) :
    readExponent t = some ([], t) := by
  cases t with
  | nil => rfl
  | cons c t =>
    obtain ⟨-, -, he, hE⟩ := h c rfl
    exact if_neg (by simp [he, hE])

theorem readNumber_digits (n : Nat) {t : Text} (ht : EndsNumber t) :
    readNumber (digits n ++ t) = some (digits n, t) := by
  obtain ⟨htake, hdrop⟩ :=
    Decimal.takeWhile_digits_append (fun c => isDigit_of_mem_digits) fun c hc => (ht c hc).1
  have hwhole : readWhole (digits n ++ t) = some (digits n, t) := by
    by_cases hn : n = 0
    · rw [hn]
      rfl
    · unfold readWhole
      split
      · rename_i rest heq
        have hhead : (digits n).head? = some '0' := by
          rw [← head?_digits_append, heq]
          rfl
        exact absurd (head?_digits hhead) hn
      · rw [readDigits, htake, hdrop, if_neg (by simpa using digits_ne_nil n)]
  have hmagnitude : readMagnitude (digits n ++ t) = some (digits n, t) := by
    rw [readMagnitude, hwhole]
    simp [readFraction_of_endsNumber ht, readExponent_of_endsNumber ht]
  unfold readNumber
  split
  · rename_i rest heq
    have hminus : '-' ∈ digits n := by
      refine List.mem_of_mem_head? ?_
      rw [← head?_digits_append, heq]
      rfl
    cases isDigit_of_mem_digits hminus
  · exact hmagnitude

/-! ### Values -/

/-- A value that its printed form is read back as. -/
inductive Legible : Json → Prop
  | null : Legible null
  | bool (b : Bool) : Legible (bool b)
  | ofNat (n : Nat) : Legible (ofNat n)
  | string {pieces : List JsonPiece} (pieces_legible : ∀ p ∈ pieces, p.Legible) :
    Legible (string pieces)
  | array {items : List Json} (items_legible : ∀ item ∈ items, Legible item) : Legible (array items)
  | object {members : List (List JsonPiece × Json)}
    (keys_legible : ∀ m ∈ members, ∀ p ∈ m.1, p.Legible)
    (values_legible : ∀ m ∈ members, Legible m.2) : Legible (object members)

/-- The value is read back from its printed form, with anything after it that does not go on as
a number, as long as there is fuel for every character printed. -/
structure ReadsBack (j : Json) : Prop where
  /-- What is printed begins with neither a blank nor the end of an array. -/
  first : ∀ depth rest, ∃ c t, print depth j ++ rest = c :: t ∧ isBlank c = false ∧ c ≠ ']'
  read : ∀ depth fuel rest, (print depth j).length ≤ fuel → EndsNumber rest →
    readValue fuel (print depth j ++ rest) = some (j, rest)

section Values
variable {j item : Json} {items : List Json} {key : List JsonPiece} {value : Json}
  {members : List (List JsonPiece × Json)} {depth close fuel : Nat} {rest : Text}

/-- There is always fuel for the first character. -/
theorem ReadsBack.of_succ
    (first : ∀ depth rest, ∃ c t, print depth j ++ rest = c :: t ∧ isBlank c = false ∧ c ≠ ']')
    (read : ∀ depth fuel rest, (print depth j).length ≤ fuel + 1 → EndsNumber rest →
      readValue (fuel + 1) (print depth j ++ rest) = some (j, rest)) : ReadsBack j where
  first := first
  read := by
    intro depth fuel rest hfuel hrest
    cases fuel with
    | zero =>
      obtain ⟨c, t, hprint, -⟩ := first depth []
      rw [List.append_nil] at hprint
      rw [hprint] at hfuel
      cases hfuel
    | succ fuel => exact read depth fuel rest hfuel hrest

theorem readsBack_null : ReadsBack null :=
  .of_succ (fun _ rest => ⟨'n', _, rfl, by decide⟩) fun _ _ _ _ _ => rfl

theorem readsBack_bool (b : Bool) : ReadsBack (bool b) := by
  cases b with
  | true => exact .of_succ (fun _ rest => ⟨'t', _, rfl, by decide⟩) fun _ _ _ _ _ => rfl
  | false => exact .of_succ (fun _ rest => ⟨'f', _, rfl, by decide⟩) fun _ _ _ _ _ => rfl

theorem readsBack_ofNat (n : Nat) : ReadsBack (ofNat n) := by
  obtain ⟨c, ds, hdigits⟩ := List.exists_cons_of_ne_nil (digits_ne_nil n)
  have hc : Pattern.isDigit c = true := isDigit_of_mem_digits (n := n) (by simp [hdigits])
  have hne {d : Char} (hd : Pattern.isDigit d = false) : c ≠ d := by
    rintro rfl
    rw [hc] at hd
    cases hd
  have hblank : isBlank c = false := by
    simp [isBlank, hne (d := ' ') rfl, hne (d := '\n') rfl, hne (d := '\t') rfl,
      hne (d := '\r') rfl]
  refine .of_succ (fun depth rest => ⟨c, ds ++ rest, ?_, hblank, hne rfl⟩) ?_
  · simp [ofNat, print, hdigits]
  · intro depth fuel rest _ hrest
    have hread := readNumber_digits n hrest
    simp only [ofNat, print]
    rw [hdigits, List.cons_append] at hread ⊢
    rw [readValue, skipBlanks_cons hblank]
    -- No other value begins with a digit.
    split <;> rename_i heq
    iterate 6 exact absurd (List.cons.inj heq).1 (hne rfl)
    rw [hread]
    rfl

theorem readsBack_string {pieces : List JsonPiece} (h : ∀ p ∈ pieces, p.Legible) :
    ReadsBack (string pieces) := by
  refine .of_succ (fun depth rest => ⟨'"', _, rfl, by decide⟩) fun depth fuel rest _ _ => ?_
  have hread := readString_printString h rest
  simp only [print, printString, List.cons_append, List.append_assoc, List.nil_append]
  rw [readValue, skipBlanks_cons (by decide)]
  simp only [hread]
  rfl

theorem endsNumber_newline (depth : Nat) (t : Text) : EndsNumber (newline depth ++ t) := by
  intro c hc
  cases hc
  decide

theorem endsNumber_items (depth close : Nat) (items : List Json) (t : Text) :
    EndsNumber (printItems depth items ++ (newline close ++ t)) := by
  cases items with
  | nil => exact endsNumber_newline close t
  | cons item items =>
    rw [printItems]
    intro c hc
    cases hc
    decide

theorem endsNumber_members (depth close : Nat) (members : List (List JsonPiece × Json)) (t : Text) :
    EndsNumber (printMembers depth members ++ (newline close ++ t)) := by
  cases members with
  | nil => exact endsNumber_newline close t
  | cons m members =>
    rw [printMembers]
    intro c hc
    cases hc
    decide

/-- Items are read up to the bracket that closes them. -/
theorem readItems_print (hitem : ReadsBack item) (hitems : ∀ i ∈ items, ReadsBack i)
    (hfuel : (print depth item).length + (printItems depth items).length < fuel) :
    readItems fuel (print depth item ++
        (printItems depth items ++ (newline close ++ ']' :: rest))) =
      some (item :: items, rest) := by
  induction items generalizing item fuel with
  | nil =>
    obtain _ | fuel := fuel
    · cases hfuel
    rw [readItems, hitem.read depth fuel _ (by omega) (endsNumber_items _ _ _ _)]
    simp [printItems, skipBlanks_newline, skipBlanks_cons (c := ']') rfl]
  | cons next items ih =>
    obtain _ | fuel := fuel
    · cases hfuel
    simp only [printItems, List.length_cons, List.length_append] at hfuel
    have hnext := hitems next (List.mem_cons_self ..)
    have hless : (print depth next).length + (printItems depth items).length < fuel := by omega
    have hrest := ih hnext (fun i hi => hitems i (List.mem_cons_of_mem next hi)) hless
    rw [readItems, hitem.read depth fuel _ (by omega) (endsNumber_items _ _ _ _)]
    simp only [printItems, List.cons_append, List.append_assoc, Option.bind_eq_bind,
      Option.bind_some, skipBlanks_cons (c := ',') rfl, readItems_newline, hrest]
    rfl

theorem readsBack_array (h : ∀ i ∈ items, ReadsBack i) : ReadsBack (array items) := by
  cases items with
  | nil => exact .of_succ (fun _ rest => ⟨'[', _, rfl, by decide⟩) fun _ _ _ _ _ => rfl
  | cons item items =>
    have hitem := h item (List.mem_cons_self ..)
    refine .of_succ (fun depth rest => ⟨'[', _, by rw [print]; rfl, by decide⟩)
      fun depth fuel rest hfuel _ => ?_
    simp only [print, List.length_cons, List.length_append] at hfuel
    have hitems : readItems fuel (print (depth + 1) item ++
        (printItems (depth + 1) items ++ (newline depth ++ ']' :: rest))) =
        some (item :: items, rest) :=
      readItems_print hitem (fun i hi => h i (List.mem_cons_of_mem item hi)) (by omega)
    obtain ⟨c, t, hfirst, hblank, hclose⟩ := hitem.first (depth + 1)
      (printItems (depth + 1) items ++ (newline depth ++ ']' :: rest))
    simp only [print, List.cons_append, List.append_assoc, List.nil_append]
    rw [readValue, skipBlanks_cons (by decide)]
    simp only [skipBlanks_newline]
    rw [hfirst] at hitems ⊢
    rw [skipBlanks_cons hblank]
    split
    · rename_i heq
      exact absurd (List.cons.inj heq).1 hclose
    · rw [hitems]
      rfl

/-- A member is a key, a colon and a value. -/
theorem readMembers_print (hkey : ∀ p ∈ key, p.Legible) (hvalue : ReadsBack value)
    (hkeys : ∀ m ∈ members, ∀ p ∈ m.1, p.Legible) (hvalues : ∀ m ∈ members, ReadsBack m.2)
    (hfuel : (print depth value).length + (printMembers depth members).length < fuel) :
    readMembers fuel (printString key ++ (':' :: ' ' :: (print depth value ++
      (printMembers depth members ++ (newline close ++ '\x7d' :: rest))))) =
      some ((key, value) :: members, rest) := by
  induction members generalizing key value fuel with
  | nil =>
    obtain _ | fuel := fuel
    · cases hfuel
    have hread := hvalue.read depth fuel _ (by omega)
      (endsNumber_members depth close [] ('\x7d' :: rest))
    simp only [printString, List.cons_append, List.append_assoc, List.nil_append]
    rw [readMembers, skipBlanks_cons (by decide)]
    simp only [readString_printString hkey, Option.bind_eq_bind, Option.bind_some,
      skipBlanks_cons (c := ':') rfl, readValue_blank, hread]
    simp [printMembers, skipBlanks_newline, skipBlanks_cons (c := '\x7d') rfl]
  | cons next members ih =>
    obtain _ | fuel := fuel
    · cases hfuel
    obtain ⟨nextKey, nextValue⟩ := next
    simp only [printMembers, List.length_cons, List.length_append] at hfuel
    have hless : (print depth nextValue).length + (printMembers depth members).length < fuel := by
      omega
    have hrest := ih (hkeys _ (List.mem_cons_self ..)) (hvalues _ (List.mem_cons_self ..))
      (fun m hm => hkeys m (List.mem_cons_of_mem _ hm))
      (fun m hm => hvalues m (List.mem_cons_of_mem _ hm)) hless
    have hread := hvalue.read depth fuel _ (by omega)
      (endsNumber_members depth close ((nextKey, nextValue) :: members) ('\x7d' :: rest))
    simp only [printString, List.cons_append, List.append_assoc, List.nil_append] at hrest ⊢
    rw [readMembers, skipBlanks_cons (by decide)]
    simp only [readString_printString hkey, Option.bind_eq_bind, Option.bind_some,
      skipBlanks_cons (c := ':') rfl, readValue_blank, hread]
    simp only [printMembers, printString, List.cons_append, List.append_assoc, List.nil_append,
      skipBlanks_cons (c := ',') rfl, readMembers_newline, hrest]
    rfl

theorem readsBack_object (hkeys : ∀ m ∈ members, ∀ p ∈ m.1, p.Legible)
    (hvalues : ∀ m ∈ members, ReadsBack m.2) : ReadsBack (object members) := by
  cases members with
  | nil => exact .of_succ (fun _ rest => ⟨'\x7b', _, rfl, by decide⟩) fun _ _ _ _ _ => rfl
  | cons m members =>
    obtain ⟨key, value⟩ := m
    refine .of_succ (fun depth rest => ⟨'\x7b', _, by rw [print]; rfl, by decide⟩)
      fun depth fuel rest hfuel _ => ?_
    simp only [print, List.length_cons, List.length_append] at hfuel
    have hread : readMembers fuel (printString key ++ (':' :: ' ' :: (print (depth + 1) value ++
        (printMembers (depth + 1) members ++ (newline depth ++ '\x7d' :: rest))))) =
        some ((key, value) :: members, rest) :=
      readMembers_print (hkeys _ (List.mem_cons_self ..)) (hvalues _ (List.mem_cons_self ..))
        (fun m hm => hkeys m (List.mem_cons_of_mem _ hm))
        (fun m hm => hvalues m (List.mem_cons_of_mem _ hm)) (by omega)
    simp only [print, printString, List.cons_append, List.append_assoc, List.nil_append] at hread ⊢
    rw [readValue, skipBlanks_cons (by decide)]
    simp only [skipBlanks_newline, skipBlanks_cons (c := '"') rfl]
    exact congrArg (Option.map fun r => (object r.1, r.2)) hread

end Values

theorem Legible.readsBack {j : Json} (h : j.Legible) : j.ReadsBack := by
  induction h with
  | null => exact readsBack_null
  | bool b => exact readsBack_bool b
  | ofNat n => exact readsBack_ofNat n
  | string pieces_legible => exact readsBack_string pieces_legible
  | array _ ih => exact readsBack_array ih
  | object keys_legible _ ih => exact readsBack_object keys_legible ih

/-- A value printed over several lines is read back. -/
theorem read?_pretty {j : Json} (h : j.Legible) : read? j.pretty = some j := by
  have hread := h.readsBack.read 0 (2 * j.pretty.length + 2) []
    (by rw [pretty]; omega) (fun c hc => by cases hc)
  rw [List.append_nil] at hread
  rw [read?]
  rw [pretty] at hread ⊢
  rw [hread]
  rfl

/-! ### What is not printed -/

/-- A carriage return in a string is printed as its letter. -/
theorem return_not_mem_printPiece {p : JsonPiece} (h : p.Legible) : '\r' ∉ printPiece p := by
  cases p with
  | unit n =>
    have hdigit (k : Nat) : '\r' ≠ Bytes.hexDigit (k % 16) := by
      have hall : ∀ m < 16, '\r' ≠ Bytes.hexDigit m := by decide
      exact hall (k % 16) (Nat.mod_lt k (by decide))
    simp [printPiece, hdigit]
  | char c =>
    unfold printPiece
    dsimp only
    split
    · rename_i letter hletter
      have hne : letter ≠ '\r' := by
        rintro rfl
        unfold JsonPiece.escapeLetter? at hletter
        repeat' split at hletter
        all_goals cases hletter
      simp [hne.symm]
    · rename_i hletter
      have hne : c ≠ '\r' := by
        rintro rfl
        cases hletter
      simp [hne.symm]

theorem return_not_mem_printString {pieces : List JsonPiece} (h : ∀ p ∈ pieces, p.Legible) :
    '\r' ∉ printString pieces := by
  have hpieces : ∀ p ∈ pieces, '\r' ∉ printPiece p :=
    fun p hp => return_not_mem_printPiece (h p hp)
  simpa [printString] using hpieces

theorem return_not_mem_newline (depth : Nat) : '\r' ∉ newline depth := by simp [newline]

theorem return_not_mem_digits (n : Nat) : '\r' ∉ digits n := by
  intro h
  cases isDigit_of_mem_digits h

theorem return_not_mem_printItems {items : List Json} {depth : Nat}
    (h : ∀ item ∈ items, '\r' ∉ print depth item) : '\r' ∉ printItems depth items := by
  induction items with
  | nil => simp [printItems]
  | cons item items ih =>
    rw [List.forall_mem_cons] at h
    simp [printItems, return_not_mem_newline, h.1, ih h.2]

theorem return_not_mem_printMembers {members : List (List JsonPiece × Json)} {depth : Nat}
    (hkeys : ∀ m ∈ members, ∀ p ∈ m.1, p.Legible)
    (hvalues : ∀ m ∈ members, '\r' ∉ print depth m.2) : '\r' ∉ printMembers depth members := by
  induction members with
  | nil => simp [printMembers]
  | cons m members ih =>
    rw [List.forall_mem_cons] at hkeys hvalues
    simp [printMembers, return_not_mem_newline, return_not_mem_printString hkeys.1, hvalues.1,
      ih hkeys.2 hvalues.2]

/-- No line of a printed value ends in a carriage return, because none is printed. -/
theorem Legible.return_not_mem_print {j : Json} (h : j.Legible) (depth : Nat) :
    '\r' ∉ print depth j := by
  induction h generalizing depth with
  | null => simp [print]
  | bool b => cases b <;> simp [print]
  | ofNat n => exact return_not_mem_digits n
  | string pieces_legible => exact return_not_mem_printString pieces_legible
  | @array items _ ih =>
    have hitems := return_not_mem_printItems fun item hitem => ih item hitem (depth + 1)
    cases items with
    | nil => simp [print]
    | cons item items =>
      simp only [printItems, List.mem_cons, List.mem_append, not_or] at hitems
      simp [print, return_not_mem_newline, hitems]
  | @object members keys_legible _ ih =>
    have hmembers := return_not_mem_printMembers keys_legible fun m hm => ih m hm (depth + 1)
    cases members with
    | nil => simp [print]
    | cons m members =>
      simp only [printMembers, List.mem_cons, List.mem_append, not_or] at hmembers
      simp [print, return_not_mem_newline, hmembers]

end Json
end ScriptBench
