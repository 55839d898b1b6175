import ScriptBench.Bytes.Hex
import ScriptBench.Decimal
import ScriptBench.Number

/-! Digits that are read back.

Hexadecimal digits are read in either case, so what was written in lower case is
read back however the letters are changed. Binary and decimal digits have one way of
being written. The form of a number is short enough to be pushed. -/
namespace ScriptBench

namespace Bytes

/-! ### Hexadecimal digits -/

theorem le_of_hexValue? {c : Char} {v : Nat} (h : hexValue? c = some v) : c ≤ 'f' := by
  unfold hexValue? at h
  split at h
  · exact Char.le_trans (And.right ‹_›) (by decide)
  · split at h
    · exact And.right ‹_›
    · split at h
      · exact Char.le_trans (And.right ‹_›) (by decide)
      · cases h

theorem exists_hexValue? {b : Bytes} {c : Char} (h : c ∈ b.hexDigits) :
    ∃ v, hexValue? c = some v := by
  obtain ⟨x, -, hc⟩ := List.mem_flatMap.mp h
  have hx : x.toNat < 256 := x.toNat_lt
  simp only [List.mem_cons, List.not_mem_nil, or_false] at hc
  obtain rfl | rfl := hc
  · exact ⟨_, hexValue?_hexDigit (x.toNat / 16) (by omega)⟩
  · exact ⟨_, hexValue?_hexDigit (x.toNat % 16) (by omega)⟩

theorem hexValue?_toLower (c : Char) : hexValue? c.toLower = hexValue? c := by
  by_cases hupper : c.val ≥ 'A'.val ∧ c.val ≤ 'Z'.val
  · have hletters : ∀ n < 91, hexValue? (Char.ofNat n).toLower = hexValue? (Char.ofNat n) := by
      decide
    have hc : c.toNat < 91 := Nat.lt_succ_of_le (UInt32.le_iff_toNat_le.mp hupper.2)
    simpa using hletters c.toNat hc
  · have hlower : c.toLower = c := dif_neg hupper
    rw [hlower]

theorem ofHex?_map_toLower (t : List Char) : ofHex? (t.map Char.toLower) = ofHex? t := by
  induction t using ofHex?.induct with
  | case1 => rfl
  | case2 c => rfl
  | case3 hi lo rest ih =>
    rw [List.map_cons, List.map_cons, ofHex?, ofHex?, hexValue?_toLower, hexValue?_toLower, ih]

/-- Digits of either case are read back. -/
theorem ofHex?_of_toLower {digits : List Char} {b : Bytes}
    (h : digits.map Char.toLower = b.hexDigits) : ofHex? digits = some b := by
  rw [← ofHex?_map_toLower, h, ofHex?_hexDigits]

/-! ### Binary digits -/

theorem bitsValue?_bits (x : UInt8) : bitsValue? 0 (bits x) = some x.toNat := by
  have hbytes : ∀ n < 256, bitsValue? 0 (bits (UInt8.ofNat n)) = some n := by decide +kernel
  simpa using hbytes x.toNat x.toNat_lt

theorem ofBinary?_bits (b : Bytes) : ofBinary? (b.flatMap bits) = some b := by
  induction b with
  | nil => rfl
  | cons x rest ih =>
    have hx := bitsValue?_bits x
    rw [List.flatMap_cons]
    simp only [bits, List.map_cons, List.map_nil, List.cons_append, List.nil_append] at hx ⊢
    rw [ofBinary?, hx, ih]
    simp

end Bytes

/-! ### Decimal digits -/

namespace Decimal

theorem isDigit_of_mem_toDigits {n : Nat} {c : Char} (h : c ∈ Nat.toDigits 10 n) :
    Pattern.isDigit c = true := by
  have hdigit := Nat.isDigit_of_mem_toDigits (by decide) (by decide) h
  simpa [Char.isDigit, Pattern.isDigit, Char.le_def] using hdigit

/-- Digits are found before what starts with none. -/
theorem takeWhile_digits_append {ds t : Text} (hds : ∀ c ∈ ds, Pattern.isDigit c = true)
    (ht : ∀ c ∈ t.head?, Pattern.isDigit c = false) :
    (ds ++ t).takeWhile Pattern.isDigit = ds ∧ (ds ++ t).dropWhile Pattern.isDigit = t := by
  rw [List.takeWhile_append_of_pos hds, List.dropWhile_append_of_pos hds]
  cases t with
  | nil => simp
  | cons c t => simp [ht c rfl]

theorem natural?_toDigits (n : Nat) : natural? (Nat.toDigits 10 n) = some n := by
  have hvalue : digitsValue (Nat.toDigits 10 n) = n := by
    have hfold := Nat.ofDigitChars_ten_toDigits (n := n)
    rwa [Nat.ofDigitChars_eq_foldl] at hfold
  rw [natural?, hvalue, if_pos]
  simpa [Nat.toDigits_ne_nil] using fun c => isDigit_of_mem_toDigits

/-- What starts with a digit has no sign. -/
theorem splitSign_toDigits (n : Nat) :
    splitSign (Nat.toDigits 10 n) = (false, Nat.toDigits 10 n) := by
  cases hdigits : Nat.toDigits 10 n with
  | nil => rfl
  | cons c rest =>
    have hc : Pattern.isDigit c = true := isDigit_of_mem_toDigits (by rw [hdigits]; simp)
    unfold splitSign
    split
    · rename_i heq
      cases heq
      cases hc
    · rename_i heq
      cases heq
      cases hc
    · rfl

theorem toList_toString (n : Int) :
    (toString n).toList =
      if n < 0 then '-' :: Nat.toDigits 10 n.natAbs else Nat.toDigits 10 n.natAbs := by
  cases n with
  | ofNat n =>
    rw [if_neg (by simp)]
    simp [Int.toString_eq_repr, Int.repr, Nat.repr_eq_ofList_toDigits]
  | negSucc n =>
    rw [if_pos (Int.negSucc_lt_zero n)]
    simp [Int.toString_eq_repr, Int.repr, Nat.repr_eq_ofList_toDigits]

/-- The characters of a number. -/
theorem mem_toString {n : Int} {c : Char} (h : c ∈ (toString n).toList) :
    c = '-' ∨ Pattern.isDigit c = true := by
  rw [toList_toString] at h
  split at h
  · exact (List.mem_cons.mp h).imp_right isDigit_of_mem_toDigits
  · exact .inr (isDigit_of_mem_toDigits h)

theorem not_mem_toString {n : Int} {c : Char} (hminus : c ≠ '-')
    (hdigit : Pattern.isDigit c = false) : c ∉ (toString n).toList := by
  intro hc
  obtain hc | hc := mem_toString hc
  · exact hminus hc
  · rw [hdigit] at hc
    cases hc

theorem toList_toString_ne_nil (n : Int) : (toString n).toList ≠ [] := by
  rw [toList_toString]
  split
  · exact List.cons_ne_nil _ _
  · exact Nat.toDigits_ne_nil

/-- An integer written in decimal is read back. -/
theorem integer?_toString (n : Int) : integer? (toString n).toList = some n := by
  rw [toList_toString, integer?]
  split
  · rw [show splitSign ('-' :: Nat.toDigits 10 n.natAbs) = (true, Nat.toDigits 10 n.natAbs) from rfl,
      natural?_toDigits]
    exact congrArg some (show -(n.natAbs : Int) = n by omega)
  · rw [splitSign_toDigits, natural?_toDigits]
    exact congrArg some (show (n.natAbs : Int) = n by omega)

end Decimal

/-! ### The length of a number -/

namespace Number

theorem length_magnitude_le {n k : Nat} (h : n < 1 <<< (8 * k)) : (magnitude n).length ≤ k := by
  induction k generalizing n with
  | zero =>
    obtain rfl : n = 0 := by simpa using h
    simp [magnitude]
  | succ k ih =>
    rw [magnitude]
    split
    · exact Nat.zero_le _
    · refine Nat.succ_le_succ (ih ?_)
      rw [Nat.shiftLeft_eq, Nat.mul_add, Nat.pow_add] at h
      rw [Nat.shiftLeft_eq]
      omega

theorem length_sign_le (negative : Bool) (b : Bytes) : (sign negative b).length ≤ b.length + 1 := by
  induction b using sign.induct with
  | case1 => exact Nat.zero_le _
  | case2 b h => simp [sign, h]
  | case3 b h => simp [sign, h]
  | case4 b rest hrest ih =>
    rw [sign]
    · exact Nat.succ_le_succ ih
    · exact hrest

/-- A number of 64 bits takes nine bytes at most. -/
theorem length_encode_le {n : Int} (h : inWord64 n = true) : (encode n).length ≤ 9 := by
  have hmagnitude : (magnitude n.natAbs).length ≤ 8 := by
    apply length_magnitude_le
    simp only [inWord64, Bool.and_eq_true, decide_eq_true_eq] at h
    simp only [Nat.reduceMul, Nat.reduceShiftLeft]
    omega
  exact Nat.le_trans (length_sign_le _ _) (Nat.succ_le_succ hmagnitude)

end Number

end ScriptBench
