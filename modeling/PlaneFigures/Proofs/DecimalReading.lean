import Mathlib.Algebra.Order.Ring.Rat
import Mathlib.Algebra.Order.Field.Power
import Mathlib.Data.List.TakeWhile
import Mathlib.Tactic.Ring
import PlaneFigures.Decimal

/-!
# Reading decimals

The positional text of a decimal is read back as the decimal itself. The digits are read as one whole
number, without the point, which is then divided by ten for every digit after the point. Zeros at the
front do not change the number, and every zero at the end multiplies it by ten.
-/

namespace PlaneFigures.Decimal

def value (d : Decimal) : ℚ := d.coefficient * 10 ^ d.exponent

def reading (text : List Char) : ℚ :=
  Nat.ofDigitChars 10 (text.filter (· ≠ '.')) 0 / 10 ^ (text.dropWhile (· ≠ '.')).tail.length

def Digits (text : List Char) : Prop := ∀ c ∈ text, c.isDigit = true

theorem Digits.append {u v : List Char} (hu : Digits u) (hv : Digits v) : Digits (u ++ v) := by
  intro c hc
  rcases List.mem_append.1 hc with h | h
  · exact hu c h
  · exact hv c h

theorem digits_replicate_zero (n : ℕ) : Digits (List.replicate n '0') := by
  intro c hc
  rw [List.eq_of_mem_replicate hc]
  rfl

theorem digits_toDigits (n : ℕ) : Digits (Nat.toDigits 10 n) := fun _ hc =>
  Nat.isDigit_of_mem_toDigits (by norm_num) (by norm_num) hc

theorem Digits.ne_point {text : List Char} (h : Digits text) :
    ∀ c ∈ text, decide (c ≠ '.') = true := by
  intro c hc
  rw [decide_eq_true_iff]
  rintro rfl
  exact absurd (h _ hc) (by decide)

theorem reading_digits {text : List Char} (h : Digits text) :
    reading text = Nat.ofDigitChars 10 text 0 := by
  rw [reading, List.filter_eq_self.2 h.ne_point, List.dropWhile_eq_nil_iff.2 h.ne_point,
    List.tail_nil, List.length_nil, pow_zero, div_one]

theorem reading_pointed {u v : List Char} (hu : Digits u) (hv : Digits v) :
    reading (u ++ '.' :: v) = Nat.ofDigitChars 10 (u ++ v) 0 / 10 ^ v.length := by
  have hfilter : (u ++ '.' :: v).filter (· ≠ '.') = u ++ v := by
    rw [List.filter_append, List.filter_cons_of_neg (by decide), List.filter_eq_self.2 hu.ne_point,
      List.filter_eq_self.2 hv.ne_point]
  have hdrop : (u ++ '.' :: v).dropWhile (· ≠ '.') = '.' :: v := by
    rw [List.dropWhile_append_of_pos hu.ne_point, List.dropWhile_cons_of_neg (by decide)]
  rw [reading, hfilter, hdrop, List.tail_cons]

theorem exists_pointed (digits : List Char) (places : ℕ) :
    ∃ u v, pointed digits places = u ++ '.' :: v ∧ v.length = places ∧
      u ++ v = List.replicate (places + 1 - digits.length) '0' ++ digits := by
  refine ⟨_, _, rfl, ?_, List.take_append_drop _ _⟩
  rw [List.length_drop, List.length_append, List.length_replicate]
  omega

theorem Digits.of_append {u v : List Char} (h : Digits (u ++ v)) : Digits u ∧ Digits v :=
  ⟨fun c hc => h c (List.mem_append_left v hc), fun c hc => h c (List.mem_append_right u hc)⟩

theorem reading_positional (d : Decimal) : reading d.positional = d.value := by
  have hdigits := digits_toDigits d.coefficient
  rw [positional, value]
  split
  case isTrue h =>
    have hcast : ((d.exponent.toNat : ℕ) : ℤ) = d.exponent := Int.toNat_of_nonneg h
    rw [reading_digits (hdigits.append (digits_replicate_zero _)), Nat.ofDigitChars_append,
      Nat.ofDigitChars_ten_toDigits, Nat.ofDigitChars_replicate_zero]
    push_cast
    rw [← zpow_natCast, hcast, mul_comm]
  case isFalse h =>
    have hcast : (((-d.exponent).toNat : ℕ) : ℤ) = -d.exponent := Int.toNat_of_nonneg (by omega)
    obtain ⟨u, v, hpointed, hlength, happend⟩ :=
      exists_pointed (Nat.toDigits 10 d.coefficient) (-d.exponent).toNat
    have huv : Digits (u ++ v) := happend ▸ (digits_replicate_zero _).append hdigits
    rw [hpointed, reading_pointed huv.of_append.1 huv.of_append.2, happend, hlength,
      Nat.ofDigitChars_append, Nat.ofDigitChars_replicate_zero, mul_zero,
      Nat.ofDigitChars_ten_toDigits, ← zpow_natCast, hcast, zpow_neg, div_inv_eq_mul]

example : positional ⟨1, -3⟩ = ['0', '.', '0', '0', '1'] := by decide +kernel

example : positional ⟨12, 2⟩ = ['1', '2', '0', '0'] := by decide +kernel

theorem positional_chars (d : Decimal) : ∀ c ∈ d.positional, c.isDigit = true ∨ c = '.' := by
  have hdigits := digits_toDigits d.coefficient
  intro c hc
  rw [positional] at hc
  split at hc
  · exact .inl (hdigits.append (digits_replicate_zero _) c hc)
  · obtain ⟨u, v, hpointed, -, happend⟩ :=
      exists_pointed (Nat.toDigits 10 d.coefficient) (-d.exponent).toNat
    have huv : Digits (u ++ v) := happend ▸ (digits_replicate_zero _).append hdigits
    rw [hpointed, List.mem_append, List.mem_cons] at hc
    rcases hc with hc | hc | hc
    · exact .inl (huv.of_append.1 c hc)
    · exact .inr hc
    · exact .inl (huv.of_append.2 c hc)

end PlaneFigures.Decimal
