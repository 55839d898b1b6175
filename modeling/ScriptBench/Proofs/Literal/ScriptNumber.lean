import ScriptBench.Opcode.Operation
import ScriptBench.Proofs.Literal.Digits

/-! Script numbers that are read back, and how large they get.

The sign of a number is the top bit of its last byte, and the magnitude stays below that
bit; so every number is read back from its form. Operands of arithmetic have four bytes at
most, and what comes out of it fits a word of 64 bits. -/
namespace ScriptBench

theorem Bytes.toNat_lt (b : Bytes) : b.toNat < 1 <<< (8 * b.length) := by
  induction b with
  | nil => exact Nat.one_pos
  | cons x rest ih =>
    have hx := x.toNat_lt
    rw [Nat.shiftLeft_eq] at ih
    rw [Bytes.toNat, List.length_cons, Nat.shiftLeft_eq, Nat.mul_add, Nat.pow_add]
    omega

namespace Number

/-! ### Reading back -/

/-- The top bit of the last byte, as it counts in the whole. -/
def topBit (b : Bytes) : Nat := 1 <<< (8 * b.length - 1)

theorem topBit_cons (x : UInt8) {b : Bytes} (h : b ≠ []) : topBit (x :: b) = 256 * topBit b := by
  have hpos := List.length_pos_iff.mpr h
  have hlength : 8 * (x :: b).length - 1 = 8 + (8 * b.length - 1) := by
    rw [List.length_cons]
    omega
  unfold topBit
  rw [hlength, Nat.shiftLeft_add, Nat.shiftLeft_eq (1 <<< 8), Nat.shiftLeft_eq 1 (8 * _ - 1)]
  omega

theorem toNat_magnitude (n : Nat) : (magnitude n).toNat = n := by
  induction n using magnitude.induct with
  | case1 => rw [magnitude]; rfl
  | case2 n hn ih =>
    rw [magnitude, if_neg hn, Bytes.toNat, ih, UInt8.toNat_ofNat']
    exact Nat.mod_add_div n 256

theorem magnitude_ne_nil {n : Nat} (h : n ≠ 0) : magnitude n ≠ [] := by
  rw [magnitude, if_neg h]
  exact List.cons_ne_nil _ _

theorem sign_ne_nil (negative : Bool) {b : Bytes} (h : b ≠ []) : sign negative b ≠ [] := by
  cases b using sign.fun_cases with
  | case1 => exact absurd rfl h
  | case2 x hx => simp [sign, hx]
  | case3 x hx => simp [sign, hx]
  | case4 x rest hrest =>
    rw [sign]
    · exact List.cons_ne_nil _ _
    · exact hrest

/-- The magnitude stays below the top bit, and the sign adds that bit. -/
theorem toNat_sign (negative : Bool) {b : Bytes} (h : b ≠ []) :
    b.toNat < topBit (sign negative b) ∧
      (sign negative b).toNat = b.toNat + if negative then topBit (sign negative b) else 0 := by
  induction b using sign.induct with
  | case1 => exact absurd rfl h
  | case2 x hx =>
    have hmark : (x ||| 0x80).toNat = x.toNat + 0x80 := by
      have hall : ∀ n < 128, (UInt8.ofNat n ||| 0x80).toNat = n + 0x80 := by decide +kernel
      have h := hall x.toNat hx
      rwa [UInt8.ofNat_toNat] at h
    rw [sign, if_pos hx]
    cases negative with
    | false => exact ⟨hx, rfl⟩
    | true => exact ⟨hx, by simp [Bytes.toNat, topBit, hmark]⟩
  | case3 x hx =>
    have hlt := x.toNat_lt
    rw [sign, if_neg hx]
    cases negative with
    | false => exact ⟨by simp [Bytes.toNat, topBit]; omega, by simp [Bytes.toNat]⟩
    | true => exact ⟨by simp [Bytes.toNat, topBit]; omega, by simp [Bytes.toNat, topBit]⟩
  | case4 x rest hrest ih =>
    obtain ⟨hlt, hsum⟩ := ih hrest
    have hx := x.toNat_lt
    rw [sign]
    · rw [topBit_cons x (sign_ne_nil negative hrest), Bytes.toNat, Bytes.toNat, hsum]
      cases negative <;> simp only [Bool.false_eq_true, if_true, if_false] <;> omega
    · exact hrest

/-- A number is read back from its form. -/
theorem value_encode (n : Int) : value (encode n) = n := by
  by_cases hn : n = 0
  · subst hn
    decide +kernel
  · have hmagnitude : magnitude n.natAbs ≠ [] := magnitude_ne_nil (Int.natAbs_ne_zero.mpr hn)
    obtain ⟨hlt, hsum⟩ := toNat_sign (decide (n < 0)) hmagnitude
    show (if (encode n).toNat < topBit (encode n) then ((encode n).toNat : Int)
      else -(((encode n).toNat - topBit (encode n) : Nat) : Int)) = n
    unfold encode
    rw [toNat_magnitude] at hlt hsum
    rw [hsum]
    by_cases hnegative : n < 0
    · simp only [hnegative, decide_true, if_true] at hlt ⊢
      rw [if_neg (by omega)]
      omega
    · simp only [hnegative, decide_false, Bool.false_eq_true, if_false] at hlt ⊢
      rw [if_pos (by omega)]
      omega

/-! ### How large numbers get -/

theorem natAbs_value_lt (b : Bytes) : (value b).natAbs < topBit b := by
  cases b with
  | nil => exact Nat.one_pos
  | cons x rest =>
    have hlt := Bytes.toNat_lt (x :: rest)
    have hlength : 8 * (x :: rest).length = 8 * (x :: rest).length - 1 + 1 := by
      rw [List.length_cons]
      omega
    rw [hlength, Nat.shiftLeft_succ] at hlt
    unfold value topBit
    dsimp only
    split <;> omega

/-- The numbers that arithmetic takes: their magnitudes have 31 bits. -/
def IsOperand (n : Int) : Prop := n.natAbs < 0x80000000

theorem isOperand_of_decode? {b : Bytes} {n : Int} (h : decode? operandLimit b = some n) :
    IsOperand n := by
  unfold decode? at h
  split at h
  · rename_i hlength
    obtain rfl : value b = n := Option.some.inj h
    have hbits : 8 * b.length - 1 ≤ 31 := by
      have hlimit : b.length ≤ 4 := hlength.1
      omega
    refine Nat.lt_of_lt_of_le (natAbs_value_lt b) ?_
    rw [topBit, Nat.shiftLeft_eq, Nat.one_mul]
    exact Nat.pow_le_pow_right Nat.two_pos hbits
  · cases h

theorem inWord64_iff {n : Int} :
    inWord64 n = true ↔ -0x8000000000000000 ≤ n ∧ n < 0x8000000000000000 := by
  simp only [inWord64, Bool.and_eq_true, decide_eq_true_eq]

theorem inWord64_bmod (n : Int) : inWord64 (Int.bmod n wordCount64) = true := by
  have hlow := Int.le_bmod (x := n) (m := wordCount64) (by decide)
  have hhigh := Int.bmod_lt (x := n) (m := wordCount64) (by decide)
  simp only [wordCount64] at hlow hhigh ⊢
  exact inWord64_iff.mpr (by omega)

theorem inWord64_of_decodeWord64? {b : Bytes} {n : Int} (h : decodeWord64? b = some n) :
    inWord64 n = true := by
  unfold decodeWord64? at h
  split at h
  · rw [← Option.some.inj h]
    exact inWord64_bmod _
  · cases h

theorem inWord64_truth (b : Bool) : inWord64 (truth b) = true := by
  cases b <;> decide

theorem inWord64_unary (op : Unary) {a : Int} (ha : IsOperand a) :
    inWord64 (op.apply a) = true := by
  unfold IsOperand at ha
  cases op with
  | not | nonzero => exact inWord64_truth _
  | increment | decrement | negate | abs =>
    rw [inWord64_iff]
    simp only [Unary.apply]
    omega

theorem inWord64_binary (op : Binary) {a b : Int} (ha : IsOperand a) (hb : IsOperand b) :
    inWord64 (op.apply a b) = true := by
  unfold IsOperand at ha hb
  cases op with
  | add | sub | min | max =>
    rw [inWord64_iff]
    simp only [Binary.apply]
    omega
  | _ => exact inWord64_truth _

end Number

end ScriptBench
