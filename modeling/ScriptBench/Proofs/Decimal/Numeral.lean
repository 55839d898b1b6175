import Mathlib.Algebra.Order.Field.Rat
import Mathlib.Data.Nat.Digits.Defs
import Mathlib.Tactic.FieldSimp
import ScriptBench.Proofs.Literal.Digits

/-! What a decimal literal is, and the number that it writes.

A literal is a sign or none, digits around a point or without one, and an exponent or
none; at least one digit stands before the exponent. Its value is a rational number, and
exactly what is written. `parse?` reads the literals and nothing else, and `integer?` the
ones without point and exponent; neither changes the value. -/
namespace ScriptBench.Decimal

/-! ### Literals and their values -/

/-- The sign that may stand before digits. -/
inductive Sign where
  | none
  | plus
  | minus
deriving DecidableEq, Repr

namespace Sign

def text : Sign → Text
  | none => []
  | plus => ['+']
  | minus => ['-']

def factor : Sign → Int
  | minus => -1
  | _ => 1

end Sign

/-- One decimal digit or more. -/
structure IsNatural (t : Text) : Prop where
  nonempty : t ≠ []
  digit : ∀ c ∈ t, Pattern.isDigit c = true

/-- The number that digits write, each at its place. -/
def natural (t : Text) : Nat := Nat.ofDigits 10 (t.reverse.map fun c => c.toNat - '0'.toNat)

/-- The power of ten that a literal may end in. -/
structure Exponent where
  mark : Char
  sign : Sign
  digits : Text
  isMark : mark = 'e' ∨ mark = 'E'
  isNatural : IsNatural digits

namespace Exponent

def text (x : Exponent) : Text := x.mark :: (x.sign.text ++ x.digits)

def power (x : Exponent) : Int := x.sign.factor * natural x.digits

end Exponent

/-- A decimal literal by its parts; the digits after the point are absent with the point. -/
structure Numeral where
  sign : Sign
  whole : Text
  fraction : Option Text
  exponent : Option Exponent
  isNatural : IsNatural (whole ++ fraction.getD [])

namespace Numeral

/-- What stands after the sign. -/
def unsigned (l : Numeral) : Text :=
  l.whole ++ (l.fraction.elim [] ('.' :: ·) ++ l.exponent.elim [] Exponent.text)

def text (l : Numeral) : Text := l.sign.text ++ l.unsigned

/-- The digits after the point. -/
def places (l : Numeral) : Text := l.fraction.getD []

def power (l : Numeral) : Int := l.exponent.elim 0 Exponent.power

/-- The number that a literal writes. -/
def value (l : Numeral) : Rat :=
  l.sign.factor * (natural l.whole + natural l.places / 10 ^ l.places.length) * 10 ^ l.power

/-- A literal without a point and an exponent. -/
def IsPlain (l : Numeral) : Prop := l.fraction = none ∧ l.exponent = none

/-- What is read from a literal. -/
def decimal (l : Numeral) : Decimal :=
  ⟨l.sign = .minus, natural (l.whole ++ l.places), l.power - l.places.length⟩

end Numeral

/-- The number that a coefficient and an exponent stand for. -/
def value (d : Decimal) : Rat :=
  (if d.negative then -1 else 1) * d.coefficient * 10 ^ d.exponent

theorem natural_append (s t : Text) : natural (s ++ t) = natural s * 10 ^ t.length + natural t := by
  unfold natural
  rw [List.reverse_append, List.map_append, Nat.ofDigits_append, List.length_map,
    List.length_reverse]
  ring

theorem digitsValue_eq (t : Text) : digitsValue t = natural t := by
  have hfold (n : Nat) :
      t.foldl (fun n d => 10 * n + (d.toNat - 48)) n = n * 10 ^ t.length + natural t := by
    induction t generalizing n with
    | nil => simp [natural]
    | cons c rest ih =>
      have hdigit : natural [c] = c.toNat - 48 := by simp [natural]
      have happend := natural_append [c] rest
      rw [List.singleton_append] at happend
      rw [List.foldl_cons, ih, happend, hdigit, List.length_cons]
      ring
  rw [digitsValue, hfold, Nat.zero_mul, Nat.zero_add]

/-- What is read from a literal has its value. -/
theorem value_decimal (l : Numeral) : l.decimal.value = l.value := by
  have hten : (10 : Rat) ≠ 0 := by decide
  have hfactor : ((l.sign.factor : Int) : Rat) = if l.sign = .minus then -1 else 1 := by
    cases l.sign <;> rfl
  have hpower : (10 : Rat) ^ (l.power - l.places.length) = 10 ^ l.power / 10 ^ l.places.length := by
    rw [zpow_sub₀ hten, zpow_natCast]
  unfold value Numeral.decimal Numeral.value
  rw [hpower, natural_append, hfactor]
  simp only [decide_eq_true_eq]
  push_cast
  field_simp

/-! ### Reading the parts -/

theorem natural?_eq_some_iff {t : Text} {n : Nat} :
    natural? t = some n ↔ IsNatural t ∧ natural t = n := by
  have hiff : (!t.isEmpty && t.all Pattern.isDigit) = true ↔ IsNatural t := by
    constructor
    · intro h
      simp only [Bool.and_eq_true, Bool.not_eq_true', List.isEmpty_eq_false_iff,
        List.all_eq_true] at h
      exact ⟨h.1, h.2⟩
    · intro h
      simpa [h.nonempty] using h.digit
  rw [natural?, digitsValue_eq]
  by_cases h : IsNatural t
  · simp [hiff.mpr h, h]
  · simp [mt hiff.mp h, h]

theorem natural?_of_isNatural {t : Text} (h : IsNatural t) : natural? t = some (natural t) :=
  natural?_eq_some_iff.mpr ⟨h, rfl⟩

/-- Every text is a sign, or none, and what follows it. -/
theorem exists_splitSign (t : Text) :
    ∃ s : Sign, s.text ++ (splitSign t).2 = t ∧ (splitSign t).1 = decide (s = .minus) := by
  unfold splitSign
  split
  · exact ⟨.minus, rfl, rfl⟩
  · exact ⟨.plus, rfl, rfl⟩
  · exact ⟨.none, rfl, rfl⟩

/-- A sign is found before what starts with no sign of its own. -/
theorem splitSign_text_append (s : Sign) {t : Text} (h : ∀ c ∈ t.head?, c ≠ '-' ∧ c ≠ '+') :
    splitSign (s.text ++ t) = (decide (s = .minus), t) := by
  cases s with
  | plus => rfl
  | minus => rfl
  | none =>
    change splitSign t = (false, t)
    unfold splitSign
    split
    · exact absurd rfl (h '-' rfl).1
    · exact absurd rfl (h '+' rfl).2
    · rfl

theorem isDigit_sign {c : Char} (h : Pattern.isDigit c = true) : c ≠ '-' ∧ c ≠ '+' := by
  constructor <;> · rintro rfl; cases h

theorem IsNatural.not_sign {t : Text} (h : IsNatural t) : ∀ c ∈ t.head?, c ≠ '-' ∧ c ≠ '+' :=
  fun c hc => isDigit_sign (h.digit c (List.mem_of_mem_head? hc))

theorem integer?_eq (t : Text) :
    integer? t = (natural? (splitSign t).2).map fun n : Nat =>
      if (splitSign t).1 then -(n : Int) else n := by
  unfold integer?
  cases natural? (splitSign t).2 <;> rfl

theorem integer?_eq_some_iff {t : Text} {n : Int} :
    integer? t = some n ↔
      ∃ (s : Sign) (ds : Text), IsNatural ds ∧ s.text ++ ds = t ∧ s.factor * natural ds = n := by
  have hsigned (s : Sign) (k : Nat) :
      (if decide (s = .minus) then -(k : Int) else k) = s.factor * k := by
    cases s <;> simp [Sign.factor]
  constructor
  · intro h
    obtain ⟨s, htext, hminus⟩ := exists_splitSign t
    rw [integer?_eq] at h
    obtain ⟨k, hk, hn⟩ := Option.map_eq_some_iff.mp h
    obtain ⟨hds, rfl⟩ := natural?_eq_some_iff.mp hk
    rw [hminus, hsigned] at hn
    exact ⟨s, _, hds, htext, hn⟩
  · rintro ⟨s, ds, hds, rfl, rfl⟩
    rw [integer?_eq, splitSign_text_append s hds.not_sign]
    simp only [natural?_of_isNatural hds, Option.map_some, hsigned]

theorem exponent?_eq_some_iff {t : Text} {e : Int} :
    exponent? t = some e ↔
      ∃ x : Option Exponent, x.elim [] Exponent.text = t ∧ x.elim 0 Exponent.power = e := by
  constructor
  · intro h
    cases t with
    | nil => exact ⟨none, rfl, Option.some.inj h⟩
    | cons c rest =>
      rw [exponent?] at h
      split at h
      case isFalse => cases h
      case isTrue hc =>
        obtain ⟨s, ds, hds, htext, hn⟩ := integer?_eq_some_iff.mp h
        exact ⟨some ⟨c, s, ds, hc, hds⟩, congrArg (c :: ·) htext, hn⟩
  · rintro ⟨x, rfl, rfl⟩
    cases x with
    | none => rfl
    | some x =>
      change exponent? (x.mark :: (x.sign.text ++ x.digits)) = some x.power
      rw [exponent?, if_pos x.isMark]
      exact integer?_eq_some_iff.mpr ⟨x.sign, x.digits, x.isNatural, rfl, rfl⟩

/-- An exponent starts with its mark, which is neither a digit nor a point. -/
theorem head?_exponent (x : Option Exponent) :
    ∀ c ∈ (x.elim [] Exponent.text).head?, Pattern.isDigit c = false ∧ c ≠ '.' := by
  cases x with
  | none => exact fun c hc => nomatch hc
  | some x =>
    rintro c ⟨rfl⟩
    obtain h | h := x.isMark <;> · rw [h]; decide

/-! ### Reading literals -/

/-- The digits after a point and what follows them, if there is a point. -/
def splitFraction : Text → Option Text × Text
  | '.' :: tail => (some (tail.takeWhile Pattern.isDigit), tail.dropWhile Pattern.isDigit)
  | tail => (none, tail)

theorem magnitude?_eq (negative : Bool) (t : Text) :
    magnitude? negative t =
      let parts := splitFraction (t.dropWhile Pattern.isDigit)
      let places := parts.1.getD []
      (natural? (t.takeWhile Pattern.isDigit ++ places)).bind fun n =>
        (exponent? parts.2).map fun e => ⟨negative, n, e - places.length⟩ := by
  unfold magnitude?
  dsimp only
  generalize t.takeWhile Pattern.isDigit = whole, t.dropWhile Pattern.isDigit = tail
  fun_cases splitFraction tail with
  | case1 tail =>
    simp only [Option.getD_some]
    cases natural? (whole ++ tail.takeWhile Pattern.isDigit) <;>
      cases exponent? (tail.dropWhile Pattern.isDigit) <;> rfl
  | case2 tail hpoint =>
    simp only [Option.getD_none]
    cases natural? (whole ++ []) <;> cases exponent? tail <;> rfl

/-- A point and digits, or neither, before what starts with neither. -/
theorem splitFraction_append {fraction : Option Text} {t : Text}
    (hdigit : ∀ c ∈ fraction.getD [], Pattern.isDigit c = true)
    (ht : ∀ c ∈ t.head?, Pattern.isDigit c = false ∧ c ≠ '.') :
    splitFraction (fraction.elim [] ('.' :: ·) ++ t) = (fraction, t) := by
  cases fraction with
  | some ds =>
    obtain ⟨htake, hdrop⟩ := takeWhile_digits_append hdigit fun c hc => (ht c hc).1
    simp only [Option.getD_some] at htake hdrop
    simp only [Option.elim_some, List.cons_append, splitFraction, htake, hdrop]
  | none =>
    rw [Option.elim_none, List.nil_append]
    unfold splitFraction
    split
    · exact absurd rfl (ht '.' rfl).2
    · rfl

/-- The point and the digits after it are put back before the rest. -/
theorem splitFraction_join (t : Text) :
    (splitFraction t).1.elim [] ('.' :: ·) ++ (splitFraction t).2 = t := by
  unfold splitFraction
  split
  · exact congrArg ('.' :: ·) List.takeWhile_append_dropWhile
  · rfl

theorem splitSign_numeral (l : Numeral) :
    splitSign l.text = (decide (l.sign = .minus), l.unsigned) := by
  refine splitSign_text_append l.sign ?_
  have hnonempty := l.isNatural.nonempty
  unfold Numeral.unsigned
  cases hwhole : l.whole with
  | cons d ds =>
    rintro c ⟨rfl⟩
    exact isDigit_sign (l.isNatural.digit _ (by simp [hwhole]))
  | nil =>
    cases hpoint : l.fraction with
    | some ds => rintro c ⟨rfl⟩; decide
    | none => simp [hwhole, hpoint] at hnonempty

/-- A literal is read. -/
theorem parse?_text (l : Numeral) : parse? l.text = some l.decimal := by
  have hdigit := l.isNatural.digit
  have hplaces : ∀ c ∈ l.places, Pattern.isDigit c = true :=
    fun c hc => hdigit c (List.mem_append_right _ hc)
  set tail := l.exponent.elim [] Exponent.text with htail
  have hfraction : splitFraction (l.fraction.elim [] ('.' :: ·) ++ tail) = (l.fraction, tail) :=
    splitFraction_append hplaces (head?_exponent l.exponent)
  have hhead : ∀ c ∈ (l.fraction.elim [] ('.' :: ·) ++ tail).head?,
      Pattern.isDigit c = false := by
    cases l.fraction with
    | none => exact fun c hc => (head?_exponent l.exponent c hc).1
    | some ds => rintro c ⟨rfl⟩; rfl
  obtain ⟨htake, hdrop⟩ :=
    takeWhile_digits_append (fun c hc => hdigit c (List.mem_append_left _ hc)) hhead
  have hexponent : exponent? tail = some l.power :=
    exponent?_eq_some_iff.mpr ⟨l.exponent, rfl, rfl⟩
  rw [parse?, splitSign_numeral, magnitude?_eq, Numeral.unsigned, htake, hdrop, hfraction]
  simp only [natural?_of_isNatural l.isNatural, hexponent]
  rfl

theorem parse?_eq_some_iff {t : Text} {d : Decimal} :
    parse? t = some d ↔ ∃ l : Numeral, l.text = t ∧ l.decimal = d := by
  constructor
  · intro h
    obtain ⟨s, hsign, hminus⟩ := exists_splitSign t
    rw [parse?, magnitude?_eq] at h
    obtain ⟨n, hn, h⟩ := Option.bind_eq_some_iff.mp h
    obtain ⟨e, he, hd⟩ := Option.map_eq_some_iff.mp h
    obtain ⟨hnatural, rfl⟩ := natural?_eq_some_iff.mp hn
    obtain ⟨x, hx, rfl⟩ := exponent?_eq_some_iff.mp he
    have hfraction := splitFraction_join ((splitSign t).2.dropWhile Pattern.isDigit)
    refine ⟨⟨s, _, _, x, hnatural⟩, ?_, ?_⟩
    · rw [Numeral.text, Numeral.unsigned, hx, hfraction, List.takeWhile_append_dropWhile, hsign]
    · rw [← hd, hminus]
      rfl
  · rintro ⟨l, rfl, rfl⟩
    exact parse?_text l

theorem Numeral.IsPlain.value_eq {l : Numeral} (h : l.IsPlain) :
    l.value = ((l.sign.factor * natural l.whole : Int) : Rat) := by
  simp [value, places, power, h.1, h.2, natural]

/-- The literals that `integer?` reads are plain, and their values are integers. -/
theorem integer?_eq_some_iff_isPlain {t : Text} {n : Int} :
    integer? t = some n ↔ ∃ l : Numeral, l.text = t ∧ l.IsPlain ∧ l.value = n := by
  rw [integer?_eq_some_iff]
  constructor
  · rintro ⟨s, ds, hds, rfl, rfl⟩
    have hwhole : IsNatural (ds ++ (none : Option Text).getD []) := by
      rwa [Option.getD_none, List.append_nil]
    refine ⟨⟨s, ds, none, none, hwhole⟩, ?_, ⟨rfl, rfl⟩, Numeral.IsPlain.value_eq ⟨rfl, rfl⟩⟩
    simp [Numeral.text, Numeral.unsigned]
  · rintro ⟨l, rfl, hplain, hn⟩
    have hwhole := l.isNatural
    rw [hplain.1, Option.getD_none, List.append_nil] at hwhole
    refine ⟨l.sign, l.whole, hwhole, ?_, ?_⟩
    · simp [Numeral.text, Numeral.unsigned, hplain.1, hplain.2]
    · rw [hplain.value_eq] at hn
      exact_mod_cast hn

/-- The literals of one text have one value. -/
theorem value_eq_of_text {l l' : Numeral} (h : l.text = l'.text) : l.value = l'.value := by
  have hdecimal : some l.decimal = some l'.decimal := by rw [← parse?_text, ← parse?_text, h]
  rw [← value_decimal, ← value_decimal, Option.some.inj hdecimal]

/-- A point or an exponent is no digit. -/
theorem integer?_text_eq_none {l : Numeral} (h : ¬l.IsPlain) : integer? l.text = none := by
  have hnatural : ¬IsNatural l.unsigned := by
    intro hnatural
    refine h ⟨?_, ?_⟩
    · by_contra hpoint
      obtain ⟨ds, hds⟩ := Option.ne_none_iff_exists'.mp hpoint
      have hdigit := hnatural.digit '.' (by simp [Numeral.unsigned, hds])
      cases hdigit
    · by_contra hexponent
      obtain ⟨x, hx⟩ := Option.ne_none_iff_exists'.mp hexponent
      have hdigit := hnatural.digit x.mark (by simp [Numeral.unsigned, hx, Exponent.text])
      rw [(head?_exponent (some x) x.mark rfl).1] at hdigit
      cases hdigit
  rw [integer?_eq, splitSign_numeral, Option.map_eq_none_iff, Option.eq_none_iff_forall_ne_some]
  exact fun n hn => hnatural (natural?_eq_some_iff.mp hn).1

end ScriptBench.Decimal
