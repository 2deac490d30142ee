import Mathlib.Algebra.Order.Floor.Semiring
import Mathlib.Algebra.Order.Ring.Rat
import Mathlib.Data.Int.Log
import Mathlib.Data.Rat.Floor
import Mathlib.Tactic.FieldSimp
import Mathlib.Tactic.Linarith
import Mathlib.Tactic.Positivity
import Mathlib.Tactic.Ring

/-!
# Rounding to nearest

The rational that a binary64 operation returns for an exact result: the nearest multiple of the unit
in the last place, and of two equally near the even one. The unit is a power of two that gives the
rounded number 53 bits, but is never less than the least positive binary64 number. Rounding is odd
and monotone. Between two binades it is monotone because the power of two that separates them is a
multiple of the unit on either side.
-/

namespace PlaneFigures.Binary64

/-- The integer nearest to a rational, of two the even one. -/
def nearestEven (q : ℚ) : ℤ :=
  if q < ⌊q⌋ + 1 / 2 then ⌊q⌋
  else if ⌊q⌋ + 1 / 2 < q then ⌊q⌋ + 1
  else ⌊q⌋ + ⌊q⌋ % 2

theorem floor_le_nearestEven (q : ℚ) : ⌊q⌋ ≤ nearestEven q := by
  rw [nearestEven]
  split_ifs <;> omega

theorem nearestEven_le_floor_add_one (q : ℚ) : nearestEven q ≤ ⌊q⌋ + 1 := by
  rw [nearestEven]
  split_ifs <;> omega

theorem nearestEven_intCast (n : ℤ) : nearestEven n = n := by
  rw [nearestEven, Int.floor_intCast, if_pos (by linarith)]

theorem nearestEven_mono {q r : ℚ} (h : q ≤ r) : nearestEven q ≤ nearestEven r := by
  rcases (Int.floor_le_floor h).lt_or_eq with hlt | heq
  · calc
      nearestEven q ≤ ⌊q⌋ + 1 := nearestEven_le_floor_add_one q
      _ ≤ ⌊r⌋ := hlt
      _ ≤ nearestEven r := floor_le_nearestEven r
  · -- Within one unit both are decided by the same midpoint and the same parity.
    rw [nearestEven, nearestEven, heq]
    split_ifs <;> first | omega | linarith

theorem nearestEven_le {q : ℚ} {n : ℤ} (h : q ≤ n) : nearestEven q ≤ n := by
  have := nearestEven_mono h
  rwa [nearestEven_intCast] at this

theorem le_nearestEven {q : ℚ} {n : ℤ} (h : n ≤ q) : n ≤ nearestEven q := by
  have := nearestEven_mono h
  rwa [nearestEven_intCast] at this

theorem nearestEven_neg (q : ℚ) : nearestEven (-q) = -nearestEven q := by
  have hle := Int.floor_le q
  have hlt := Int.lt_floor_add_one q
  rcases hle.eq_or_lt with heq | hfract
  · rw [← heq, ← Int.cast_neg, nearestEven_intCast, nearestEven_intCast]
  · have hfloor : ⌊-q⌋ = -⌊q⌋ - 1 := by
      rw [Int.floor_eq_iff]
      push_cast
      constructor <;> linarith
    rw [nearestEven, nearestEven, hfloor]
    push_cast
    split_ifs <;> first | omega | linarith

/-- The exponent of the last place of the binary64 numbers around a rational. -/
def placeExponent (q : ℚ) : ℤ := max (Int.log 2 |q| - 52) (-1074)

def place (q : ℚ) : ℚ := 2 ^ placeExponent q

/-- The rational rounded to the nearest number of 53 bits, in steps of the least binary64 number at
least. There is no greatest exponent. -/
def nearest (q : ℚ) : ℚ := nearestEven (q / place q) * place q

theorem place_pos (q : ℚ) : 0 < place q := zpow_pos (by norm_num) _

theorem placeExponent_neg (q : ℚ) : placeExponent (-q) = placeExponent q := by
  rw [placeExponent, placeExponent, abs_neg]

theorem nearest_neg (q : ℚ) : nearest (-q) = -nearest q := by
  rw [nearest, nearest, place, place, placeExponent_neg, neg_div, nearestEven_neg, Int.cast_neg,
    neg_mul]

theorem nearest_le {q : ℚ} {n : ℤ} (h : q ≤ n * place q) : nearest q ≤ n * place q := by
  have hn : nearestEven (q / place q) ≤ n := nearestEven_le ((div_le_iff₀ (place_pos q)).2 h)
  exact mul_le_mul_of_nonneg_right (by exact_mod_cast hn) (place_pos q).le

theorem le_nearest {q : ℚ} {n : ℤ} (h : n * place q ≤ q) : n * place q ≤ nearest q := by
  have hn : n ≤ nearestEven (q / place q) := le_nearestEven ((le_div_iff₀ (place_pos q)).2 h)
  exact mul_le_mul_of_nonneg_right (by exact_mod_cast hn) (place_pos q).le

theorem two_zpow_eq_mul_place {q : ℚ} {k : ℤ} (hk : placeExponent q ≤ k) :
    (2 : ℚ) ^ k = ((2 ^ (k - placeExponent q).toNat : ℤ) : ℚ) * place q := by
  have hcast : ((k - placeExponent q).toNat : ℤ) = k - placeExponent q :=
    Int.toNat_of_nonneg (by omega)
  push_cast
  rw [place, ← zpow_natCast, hcast, ← zpow_add₀ (by norm_num), sub_add_cancel]

theorem nearest_le_two_zpow {q : ℚ} {k : ℤ} (hk : placeExponent q ≤ k) (h : q ≤ 2 ^ k) :
    nearest q ≤ 2 ^ k := by
  rw [two_zpow_eq_mul_place hk] at h ⊢
  exact nearest_le h

theorem two_zpow_le_nearest {q : ℚ} {k : ℤ} (hk : placeExponent q ≤ k) (h : 2 ^ k ≤ q) :
    2 ^ k ≤ nearest q := by
  rw [two_zpow_eq_mul_place hk] at h ⊢
  exact le_nearest h

theorem mantissa_le {q : ℚ} (hq : 0 < q) : nearestEven (q / place q) ≤ 2 ^ 53 := by
  have hexp : Int.log 2 q < placeExponent q + 53 := by
    rw [placeExponent, abs_of_pos hq]
    omega
  have hlt : q < 2 ^ (placeExponent q + 53) := (Int.lt_zpow_iff_log_lt (by norm_num) hq).2 hexp
  apply nearestEven_le
  rw [div_le_iff₀ (place_pos q)]
  rw [zpow_add₀ (by norm_num), mul_comm] at hlt
  exact_mod_cast hlt.le

theorem le_mantissa {q : ℚ} (hq : 0 < q) :
    2 ^ 52 ≤ nearestEven (q / place q) ∨ placeExponent q = -1074 := by
  by_cases hmin : placeExponent q = -1074
  · exact Or.inr hmin
  · left
    have hexp : placeExponent q + 52 = Int.log 2 q := by
      rw [placeExponent, abs_of_pos hq] at hmin ⊢
      omega
    have hle : 2 ^ (placeExponent q + 52) ≤ q := by
      rw [hexp]
      exact Int.zpow_log_le_self (by norm_num) hq
    apply le_nearestEven
    rw [le_div_iff₀ (place_pos q)]
    rw [zpow_add₀ (by norm_num), mul_comm] at hle
    exact_mod_cast hle

theorem nearest_zero : nearest 0 = 0 := by
  have hzero : nearestEven 0 = 0 := nearestEven_intCast 0
  rw [nearest, zero_div, hzero, Int.cast_zero, zero_mul]

theorem nearest_nonneg {q : ℚ} (hq : 0 ≤ q) : 0 ≤ nearest q := by
  have h := le_nearest (q := q) (n := 0)
  rw [Int.cast_zero, zero_mul] at h
  exact h hq

theorem nearest_mono {q r : ℚ} (hq : 0 ≤ q) (h : q ≤ r) : nearest q ≤ nearest r := by
  rcases hq.eq_or_lt with rfl | hpos
  · rw [nearest_zero]
    exact nearest_nonneg h
  have hr : 0 < r := hpos.trans_le h
  have hlog : Int.log 2 q ≤ Int.log 2 r := Int.log_mono_right hpos h
  have hexp : placeExponent q = max (Int.log 2 q - 52) (-1074) := by
    rw [placeExponent, abs_of_pos hpos]
  have hexp' : placeExponent r = max (Int.log 2 r - 52) (-1074) := by
    rw [placeExponent, abs_of_pos hr]
  by_cases hplace : placeExponent q = placeExponent r
  · have hle : q / place r ≤ r / place r := div_le_div_of_nonneg_right h (place_pos r).le
    rw [nearest, place, hplace]
    exact mul_le_mul_of_nonneg_right (by exact_mod_cast nearestEven_mono hle) (place_pos r).le
  · -- The power of two at the foot of the binade of `r` is between the two and on both grids.
    have hlt : Int.log 2 q < Int.log 2 r := by omega
    have hq' : q < 2 ^ Int.log 2 r := (Int.lt_zpow_iff_log_lt (by norm_num) hpos).2 hlt
    have hr' : 2 ^ Int.log 2 r ≤ r := Int.zpow_log_le_self (by norm_num) hr
    calc
      nearest q ≤ 2 ^ Int.log 2 r := nearest_le_two_zpow (by omega) hq'.le
      _ ≤ nearest r := two_zpow_le_nearest (by omega) hr'

theorem abs_nearest (q : ℚ) : |nearest q| = nearest |q| := by
  rcases le_total 0 q with hq | hq
  · rw [abs_of_nonneg hq, abs_of_nonneg (nearest_nonneg hq)]
  · have hnonneg := nearest_nonneg (neg_nonneg.2 hq)
    rw [abs_of_nonpos hq, ← abs_of_nonneg hnonneg, nearest_neg, abs_neg]

theorem nearest_monotone : Monotone nearest := by
  intro q r h
  rcases le_total 0 q with hq | hq
  · exact nearest_mono hq h
  rcases le_total 0 r with hr | hr
  · have hq' := nearest_nonneg (neg_nonneg.2 hq)
    rw [nearest_neg] at hq'
    linarith [nearest_nonneg hr]
  · have h' := nearest_mono (neg_nonneg.2 hr) (neg_le_neg h)
    rw [nearest_neg, nearest_neg] at h'
    exact neg_le_neg_iff.1 h'

theorem nearest_eq_self {q : ℚ} {n : ℤ} (h : q = n * place q) : nearest q = q :=
  le_antisymm ((nearest_le h.le).trans h.ge) (h.le.trans (le_nearest h.ge))

theorem nearest_mul_two_zpow {n e : ℤ} (hn : |n| < 2 ^ 53) (he : -1074 ≤ e) :
    nearest (n * 2 ^ e) = n * 2 ^ e := by
  rcases eq_or_ne n 0 with rfl | hne
  · rw [Int.cast_zero, zero_mul, nearest_zero]
  have hpow : (0 : ℚ) < 2 ^ e := zpow_pos (by norm_num) e
  have hpos : 0 < |(n : ℚ) * 2 ^ e| := abs_pos.2 (mul_ne_zero (Int.cast_ne_zero.2 hne) hpow.ne')
  have hlt : |(n : ℚ) * 2 ^ e| < 2 ^ (53 + e) := by
    rw [abs_mul, abs_of_pos hpow, zpow_add₀ (by norm_num)]
    exact mul_lt_mul_of_pos_right (by exact_mod_cast hn) hpow
  have hlog : Int.log 2 |(n : ℚ) * 2 ^ e| < 53 + e :=
    (Int.lt_zpow_iff_log_lt (by norm_num) hpos).1 hlt
  have hexp : placeExponent (n * 2 ^ e) ≤ e := by
    rw [placeExponent]
    omega
  apply nearest_eq_self (n := n * 2 ^ (e - placeExponent (n * 2 ^ e)).toNat)
  rw [Int.cast_mul, mul_assoc, ← two_zpow_eq_mul_place hexp]

theorem abs_nearest_le_two_zpow {q : ℚ} {k : ℤ} (hk : -1074 ≤ k) (h : |q| ≤ 2 ^ k) :
    |nearest q| ≤ 2 ^ k := by
  have hpow : nearest (2 ^ k) = 2 ^ k := by
    have h := nearest_mul_two_zpow (n := 1) (by norm_num) hk
    rwa [Int.cast_one, one_mul] at h
  rw [abs_nearest, ← hpow]
  exact nearest_monotone h

end PlaneFigures.Binary64
