import ScriptBench.Input
import ScriptBench.Proofs.Literal.Digits
import ScriptBench.Proofs.SourceLine.Surroundings

/-! Literals as they are written in a pane.

A spelling is any way to write data between angle brackets: hexadecimal digits of
either case, binary digits, a number in decimal, or a text between quotes. Whatever
stands around it, its line is read as that literal. Two facts carry this: a digit is
none of the characters that strings and comments begin with, so that the line is kept
as it is, and the forms are told apart by characters that only one of them has. -/
namespace ScriptBench

inductive Spelling where
  | hex (data : Bytes) (digits : Text) (spelled : digits.map Char.toLower = data.hexDigits)
  | binary (data : Bytes)
  | number (n : Int) (word : Number.inWord64 n = true)
  | quoted (quote : Char) (t : Text) (isQuote : quote = '"' ∨ quote = '\'') (free : quote ∉ t)
      (oneLine : '\n' ∉ t)

namespace Spelling

def inner : Spelling → Text
  | hex _ digits _ => '0' :: 'x' :: digits
  | binary data => '0' :: 'b' :: data.flatMap Bytes.bits
  | number n _ => (toString n).toList
  | quoted quote t _ _ _ => quote :: (t ++ [quote])

/-- The line of a spelling. -/
def text (s : Spelling) : Text := '<' :: s.inner ++ ['>']

/-- The bytes that are written. -/
def bytes : Spelling → Bytes
  | hex data _ _ => data
  | binary data => data
  | number n _ => Number.encode n
  | quoted _ t _ _ _ => t.utf8

/-- What an element gives back of what is written: the digits, in lower case, the number
or the text. -/
def ReadBack (e : Element) : Spelling → Prop
  | hex _ digits _ => e.bytes.hex = String.ofList (digits.map Char.toLower)
  | binary data => e.bytes.binary = String.ofList (data.flatMap Bytes.bits)
  | number n _ => e.number? = some n
  | quoted _ t _ _ _ => e.text? = some t

/-- The literal that a spelling is read as. -/
def literal : Spelling → Literal
  | hex _ digits _ => .hex digits
  | binary data => .binary (data.flatMap Bytes.bits)
  | number n _ => .number n
  | quoted _ t _ _ _ => .text t

theorem exists_element (s : Spelling) :
    ∃ e, s.literal.element = .ok e ∧ e.bytes = s.bytes ∧ s.ReadBack e := by
  cases s with
  | hex data digits spelled =>
    refine ⟨.raw data, ?_, rfl, ?_⟩
    · rw [literal, Literal.element, Bytes.ofHex?_of_toLower spelled]
    · rw [ReadBack, spelled]
      rfl
  | binary data =>
    refine ⟨.raw data, ?_, rfl, rfl⟩
    rw [literal, Literal.element, Bytes.ofBinary?_bits]
  | number n word => exact ⟨.number n, rfl, rfl, rfl⟩
  | quoted quote t isQuote free oneLine => exact ⟨.text t, rfl, rfl, rfl⟩

/-! ### What is not a quoted text -/

/-- A character that is kept wherever it stands: it is no blank, and neither a string nor
a comment begins with it. -/
def isBare (c : Char) : Bool := !Token.opensInert c && !Text.isBlank c

theorem opensInert_of_isBare {c : Char} (h : isBare c = true) : Token.opensInert c = false := by
  simpa using (Bool.and_eq_true_iff.mp h).1

theorem isBlank_of_isBare {c : Char} (h : isBare c = true) : Text.isBlank c = false := by
  simpa using (Bool.and_eq_true_iff.mp h).2

theorem isBare_of_hexValue? {c : Char} {v : Nat} (h : Bytes.hexValue? c = some v) :
    isBare c = true := by
  have hbare : ∀ n < 103, (Bytes.hexValue? (Char.ofNat n)).isSome → isBare (Char.ofNat n) = true := by
    decide +kernel
  have hc : c.toNat < 103 := Nat.lt_succ_of_le (UInt32.le_iff_toNat_le.mp (Bytes.le_of_hexValue? h))
  simpa [h] using hbare c.toNat hc

theorem isBare_of_isDigit {c : Char} (h : Pattern.isDigit c = true) : isBare c = true := by
  have hvalue : Bytes.hexValue? c = some (c.toNat - 48) := by
    rw [Bytes.hexValue?, if_pos (by simpa [Pattern.isDigit] using h)]
  exact isBare_of_hexValue? hvalue

theorem isBare_hex {data : Bytes} {digits : Text} (h : digits.map Char.toLower = data.hexDigits) :
    ∀ c ∈ digits, isBare c = true := by
  intro c hc
  have hlower : c.toLower ∈ data.hexDigits := h ▸ List.mem_map_of_mem hc
  obtain ⟨v, hv⟩ := Bytes.exists_hexValue? hlower
  exact isBare_of_hexValue? (Bytes.hexValue?_toLower c ▸ hv)

theorem isBare_binary (data : Bytes) : ∀ c ∈ data.flatMap Bytes.bits, isBare c = true := by
  intro c hc
  obtain ⟨x, -, hc⟩ := List.mem_flatMap.mp hc
  obtain ⟨k, -, rfl⟩ := List.mem_map.mp hc
  split <;> decide

theorem isBare_number (n : Int) : ∀ c ∈ (toString n).toList, isBare c = true := by
  intro c hc
  obtain rfl | hdigit := Decimal.mem_toString hc
  · decide
  · exact isBare_of_isDigit hdigit

/-- Whatever is not between quotes has bare characters only. -/
theorem bare_or_quoted (s : Spelling) :
    (∀ c ∈ s.inner, isBare c = true) ∨
      ∃ q t, (q = '"' ∨ q = '\'') ∧ q ∉ t ∧ '\n' ∉ t ∧ s.inner = q :: (t ++ [q]) := by
  cases s with
  | hex data digits spelled =>
    have hlead : ∀ c ∈ ['0', 'x'], isBare c = true := by
      simp [isBare, Token.opensInert, Text.isBlank]
    exact .inl (List.forall_mem_append.mpr ⟨hlead, isBare_hex spelled⟩)
  | binary data =>
    have hlead : ∀ c ∈ ['0', 'b'], isBare c = true := by
      simp [isBare, Token.opensInert, Text.isBlank]
    exact .inl (List.forall_mem_append.mpr ⟨hlead, isBare_binary data⟩)
  | number n word => exact .inl (isBare_number n)
  | quoted q t isQuote free oneLine => exact .inr ⟨q, t, isQuote, free, oneLine, rfl⟩

/-! ### The line of a spelling -/

theorem not_mem_text (s : Spelling) : '\n' ∉ s.text := by
  have hinner : '\n' ∉ s.inner := by
    obtain hbare | ⟨q, t, hquote, -, hline, hinner⟩ := s.bare_or_quoted
    · exact fun h => absurd (hbare _ h) (by decide)
    · rw [hinner]
      obtain rfl | rfl := hquote <;> simp [hline]
  simp [text, hinner]

theorem code_around (s : Spelling) (around : SourceLine.Surroundings) :
    Token.code (Token.steps .root (around.around s.text)).1 =
      around.lead ++ s.text ++ around.trail := by
  obtain hbare | ⟨q, t, hquote, hfree, -, hinner⟩ := s.bare_or_quoted
  · have hplain : ∀ c ∈ s.inner, Token.opensInert c = false := fun c hc =>
      opensInert_of_isBare (hbare c hc)
    refine around.code_around_stretch ?_
    exact List.forall_mem_cons.mpr
      ⟨rfl, List.forall_mem_append.mpr ⟨hplain, List.forall_mem_singleton.mpr rfl⟩⟩
  · have htext : s.text = ['<'] ++ q :: (t ++ q :: ['>']) := by simp [text, hinner]
    rw [htext]
    exact around.code_around_string hquote hfree (List.forall_mem_singleton.mpr rfl)
      (List.forall_mem_singleton.mpr rfl)

/-- The line is what is run, whatever stands around it. -/
theorem ofText_around (s : Spelling) (around : SourceLine.Surroundings) :
    SourceLine.ofText (around.around s.text) = [s.text] :=
  SourceLine.ofText_around around s.code_around s.not_mem_text (by simp [Text.isBlank]) (by decide)

end Spelling

/-! ### What stands between the brackets -/

namespace Input

theorem number?_toString {n : Int} (h : Number.inWord64 n = true) :
    number? (toString n).toList = some n := by
  rw [number?, Decimal.integer?_toString, Option.filter_some, if_pos h]

theorem unquote?_cons_of_ne {q c : Char} (h : c ≠ q) (rest : Text) :
    unquote? q (c :: rest) = none := by
  cases rest with
  | nil => exact if_neg h
  | cons d rest => exact if_neg h

theorem unquote?_of_not_mem {q : Char} {t : Text} (h : q ∉ t) : unquote? q t = none := by
  cases t with
  | nil => rfl
  | cons c rest => exact unquote?_cons_of_ne (fun hc => h (by simp [hc])) rest

theorem unquote?_quoted (q : Char) (t : Text) : unquote? q (q :: (t ++ [q])) = some t := by
  have hend := Text.stripEnd?_append t [q]
  cases t with
  | nil => exact (if_pos rfl).trans hend
  | cons c t => exact (if_pos rfl).trans hend

theorem ofPush_number {n : Int} (h : Number.inWord64 n = true) :
    ofPush (toString n).toList = .number n := by
  have hx : 'x' ∉ (toString n).toList := Decimal.not_mem_toString (by decide) rfl
  have hb : 'b' ∉ (toString n).toList := Decimal.not_mem_toString (by decide) rfl
  have hdouble : '"' ∉ (toString n).toList := Decimal.not_mem_toString (by decide) rfl
  have hsingle : '\'' ∉ (toString n).toList := Decimal.not_mem_toString (by decide) rfl
  have htrim : Text.trim (toString n).toList = (toString n).toList :=
    Text.trim_of_not_blank fun c hc => Spelling.isBlank_of_isBare (Spelling.isBare_number n c hc)
  rw [ofPush, Text.stripStart?_of_not_mem (by simp) hx, Text.stripStart?_of_not_mem (by simp) hb,
    unquote?_of_not_mem hdouble, unquote?_of_not_mem hsingle, htrim, number?_toString h]
  exact if_neg (by simpa using Decimal.toList_toString_ne_nil n)

theorem ofPush_quoted {q : Char} {t : Text} (hquote : q = '"' ∨ q = '\'') :
    ofPush (q :: (t ++ [q])) = .text t := by
  have hunquote : (unquote? '"' (q :: (t ++ [q]))).or (unquote? '\'' (q :: (t ++ [q]))) =
      some t := by
    obtain rfl | rfl := hquote
    · rw [unquote?_quoted, Option.some_or]
    · rw [unquote?_cons_of_ne (by decide), unquote?_quoted, Option.none_or]
  have hhex : Text.stripStart? ['0', 'x'] (q :: (t ++ [q])) = none := by
    obtain rfl | rfl := hquote <;> rfl
  have hbinary : Text.stripStart? ['0', 'b'] (q :: (t ++ [q])) = none := by
    obtain rfl | rfl := hquote <;> rfl
  rw [ofPush, hhex, hbinary, hunquote]

end Input

/-! ### The literal that is read -/

namespace Spelling

theorem ofLine_text (s : Spelling) : Input.ofLine s.text = Input.ofPush s.inner := by
  have hpushed : Input.pushed? s.text = some s.inner := Text.stripEnd?_append s.inner ['>']
  rw [Input.ofLine, hpushed]

/-- The line of a spelling pushes its literal. -/
theorem feed_text (s : Spelling) (m : Machine) :
    m.feed true s.text = .ok (m.call (.push s.literal)) := by
  unfold Machine.feed
  rw [ofLine_text]
  cases s with
  | hex data digits spelled => rfl
  | binary data => rfl
  | number n word => rw [inner, Input.ofPush_number word]; rfl
  | quoted q t isQuote free oneLine => rw [inner, Input.ofPush_quoted isQuote]; rfl

end Spelling

end ScriptBench
