import PlaneFigures.Proofs.DecimalReading
import PlaneFigures.Proofs.Rounding

/-!
# Shortest decimals read back

The decimal that is chosen for a positive float is rounded to that float again. It is one of the
decimals in the span of the float, because the search tests every candidate and ends with the float
itself. A rational in the span is at most half a unit of the last place away from the float, and the
even mantissa wins a tie. If it is in the binade below, where the unit is half as large, the float is
the power of two between the two binades, and the span ends a quarter of a unit below it.
-/

namespace PlaneFigures

namespace Binary64

/-- The integer is at most one half away from the rational, and less if it is odd. -/
def WithinHalf (q : ℚ) (n : ℤ) : Prop :=
  n - 1 / 2 ≤ q ∧ q ≤ n + 1 / 2 ∧ (n % 2 = 0 ∨ n - 1 / 2 < q ∧ q < n + 1 / 2)

theorem nearestEven_eq {q : ℚ} {n : ℤ} (h : WithinHalf q n) : nearestEven q = n := by
  obtain ⟨hlow, hhigh, htie⟩ := h
  rcases le_or_gt (n : ℚ) q with hle | hlt
  · have hfloor : ⌊q⌋ = n := Int.floor_eq_iff.2 ⟨hle, by linarith⟩
    rw [nearestEven, hfloor]
    split_ifs with hbelow habove
    · rfl
    · linarith
    · have heven := htie.resolve_right fun hstrict => hbelow hstrict.2
      omega
  · have hfloor : ⌊q⌋ = n - 1 := by
      rw [Int.floor_eq_iff]
      push_cast
      constructor <;> linarith
    rw [nearestEven, hfloor]
    push_cast
    split_ifs with hbelow habove
    · linarith
    · omega
    · have heven := htie.resolve_right fun hstrict => habove (by linarith)
      omega

theorem nearest_eq {q : ℚ} {n e : ℤ} (hplace : placeExponent q = e) (h : WithinHalf (q / 2 ^ e) n) :
    nearest q = n * 2 ^ e := by
  rw [nearest, place, hplace, nearestEven_eq h]

theorem placeExponent_eq {q : ℚ} {e : ℤ} (hq : 0 < q) (hhigh : q < 2 ^ 53 * 2 ^ e)
    (he : -1074 ≤ e) (hlow : 2 ^ 52 * 2 ^ e ≤ q ∨ e = -1074) : placeExponent q = e := by
  have hpow (n : ℕ) : (2 : ℚ) ^ n * 2 ^ e = 2 ^ (n + e) := by
    rw [zpow_add₀ (by norm_num), zpow_natCast]
  rw [hpow] at hhigh hlow
  have hlog := (Int.lt_zpow_iff_log_lt (b := 2) (by norm_num) hq).1 hhigh
  rw [placeExponent, abs_of_pos hq]
  rcases hlow with hlow | hlow
  · have hlog' := (Int.zpow_le_iff_le_log (b := 2) (by norm_num) hq).1 hlow
    push_cast at hlog hlog'
    omega
  · push_cast at hlog
    omega

/-- The rationals that are rounded to a number with a given mantissa: up to half a unit of its last
place on either side, but only up to a quarter of a unit below the least number of a binade. -/
theorem nearest_of_withinHalf {m e : ℤ} {q : ℚ} (hm : 1 ≤ m) (hm53 : m < 2 ^ 53) (he : -1074 ≤ e)
    (hmin : 2 ^ 52 ≤ m ∨ e = -1074) (h : WithinHalf (q / 2 ^ e) m)
    (hquarter : m = 2 ^ 52 → -1074 < e → m - 1 / 4 ≤ q / 2 ^ e) : nearest q = m * 2 ^ e := by
  have hpow : (0 : ℚ) < 2 ^ e := zpow_pos (by norm_num) e
  have hm1 : (1 : ℚ) ≤ m := by exact_mod_cast hm
  have hm' : (m : ℚ) + 1 ≤ 2 ^ 53 := by exact_mod_cast hm53
  obtain ⟨x, rfl⟩ : ∃ x, q = x * 2 ^ e := ⟨q / 2 ^ e, (div_mul_cancel₀ q hpow.ne').symm⟩
  rw [mul_div_cancel_right₀ x hpow.ne'] at h hquarter
  have hx : 0 < x := by linarith [h.1]
  by_cases hbinade : 2 ^ 52 * 2 ^ e ≤ x * 2 ^ e ∨ e = -1074
  · have hlt : x * 2 ^ e < 2 ^ 53 * 2 ^ e := mul_lt_mul_of_pos_right (by linarith [h.2.1]) hpow
    apply nearest_eq (placeExponent_eq (mul_pos hx hpow) hlt he hbinade)
    rwa [mul_div_cancel_right₀ x hpow.ne']
  · -- The rational is in the binade below, so that the number is the least of its own binade.
    obtain ⟨hbelow, hexp⟩ := not_or.1 hbinade
    have hx52 : x < 2 ^ 52 := lt_of_mul_lt_mul_right (not_le.1 hbelow) hpow.le
    have hm52 : m = 2 ^ 52 := by
      have hlt : (m : ℚ) < 2 ^ 52 + 1 := by linarith [h.1]
      have hlt' : m < 2 ^ 52 + 1 := by exact_mod_cast hlt
      omega
    have hlow := hquarter hm52 (by omega)
    subst hm52
    push_cast at hlow ⊢
    have hhalf : (2 : ℚ) ^ e = 2 * 2 ^ (e - 1) := by
      rw [zpow_sub_one₀ (by norm_num)]
      ring
    have hpow' : (0 : ℚ) < 2 ^ (e - 1) := zpow_pos (by norm_num) _
    rw [hhalf, ← mul_assoc, ← mul_assoc]
    have hplace : placeExponent (x * 2 * 2 ^ (e - 1)) = e - 1 := by
      apply placeExponent_eq (by positivity) _ (by omega) (.inl _)
      · exact mul_lt_mul_of_pos_right (by linarith) hpow'
      · exact mul_le_mul_of_nonneg_right (by linarith) hpow'.le
    have hhalves : WithinHalf (x * 2 * 2 ^ (e - 1) / 2 ^ (e - 1)) (2 ^ 53) := by
      rw [mul_div_cancel_right₀ _ hpow'.ne']
      refine ⟨?_, ?_, .inl (by norm_num)⟩
      · push_cast
        linarith
      · push_cast
        linarith
    rw [nearest_eq hplace hhalves]
    push_cast
    norm_num

end Binary64

theorem GridSpan.holds_of_nearest {g : GridSpan} {n : ℕ} (h : g.nearest? = some n) : g.Holds n := by
  simp only [nearest?] at h
  split_ifs at h with hbelow hnext habove
  · cases h
    exact hnext.2
  · cases h
    exact hbelow
  · cases h
    exact habove

namespace RoundingSpan

open Binary64

def Contains (s : RoundingSpan) (q : ℚ) : Prop :=
  if s.closed then s.low * 2 ^ s.unit ≤ q ∧ q ≤ s.high * 2 ^ s.unit
  else s.low * 2 ^ s.unit < q ∧ q < s.high * 2 ^ s.unit

theorem pow_toNat_eq {a : ℚ} (ha : a ≠ 0) (k : ℤ) : a ^ k.toNat = a ^ k * a ^ (-k).toNat := by
  rw [← zpow_natCast, ← zpow_natCast, ← zpow_add₀ ha]
  congr 1
  omega

theorem exists_scale (s : RoundingSpan) (k : ℤ) :
    ∃ c : ℚ, 0 < c ∧ ((s.onGrid k).low : ℚ) = s.low * 2 ^ s.unit * c ∧
      ((s.onGrid k).high : ℚ) = s.high * 2 ^ s.unit * c ∧ ((s.onGrid k).step : ℚ) = 10 ^ k * c := by
  refine ⟨2 ^ (-s.unit).toNat * 10 ^ (-k).toNat, by positivity, ?_, ?_, ?_⟩
  · change ((s.low * (2 ^ s.unit.toNat * 10 ^ (-k).toNat) : ℕ) : ℚ) = _
    push_cast
    rw [pow_toNat_eq two_ne_zero]
    ring
  · change ((s.high * (2 ^ s.unit.toNat * 10 ^ (-k).toNat) : ℕ) : ℚ) = _
    push_cast
    rw [pow_toNat_eq two_ne_zero]
    ring
  · change ((2 ^ (-s.unit).toNat * 10 ^ k.toNat : ℕ) : ℚ) = _
    push_cast
    rw [pow_toNat_eq (by norm_num) k]
    ring

theorem holds_iff_contains (s : RoundingSpan) (d : Decimal) : s.Holds d ↔ s.Contains d.value := by
  obtain ⟨c, hc, hlow, hhigh, hstep⟩ := s.exists_scale d.exponent
  have hvalue : ((d.coefficient * (s.onGrid d.exponent).step : ℕ) : ℚ) = d.value * c := by
    rw [Nat.cast_mul, hstep, Decimal.value]
    ring
  change (if s.closed then _ else _) ↔ _
  rw [Contains]
  simp only [← Nat.cast_le (α := ℚ), ← Nat.cast_lt (α := ℚ), hvalue, hlow, hhigh,
    mul_le_mul_iff_left₀ hc, mul_lt_mul_iff_left₀ hc]

theorem value_exactly (s : RoundingSpan) : s.exactly.value = s.mid * 2 ^ s.unit := by
  rw [exactly]
  split
  case isTrue h =>
    have hcast : ((s.unit.toNat : ℕ) : ℤ) = s.unit := Int.toNat_of_nonneg h
    change ((s.mid * 2 ^ s.unit.toNat : ℕ) : ℚ) * 10 ^ (0 : ℤ) = _
    push_cast
    rw [← zpow_natCast, hcast, mul_one]
  case isFalse h =>
    have hcast : (((-s.unit).toNat : ℕ) : ℤ) = -s.unit := Int.toNat_of_nonneg (by omega)
    change ((s.mid * 5 ^ (-s.unit).toNat : ℕ) : ℚ) * 10 ^ s.unit = _
    have hten : (10 : ℚ) ^ s.unit = 2 ^ s.unit * 5 ^ s.unit := by
      rw [← mul_zpow]
      norm_num
    push_cast
    rw [← zpow_natCast, hcast, hten, zpow_neg]
    field_simp

theorem contains_shortest {s : RoundingSpan} (hlow : s.low < s.mid) (hhigh : s.mid < s.high) :
    s.Contains s.shortest.value := by
  rw [shortest]
  cases hsearch : s.grids.findSome? s.nearest? with
  | some d =>
    obtain ⟨k, -, hk⟩ := List.exists_of_findSome?_eq_some hsearch
    obtain ⟨n, hn, rfl⟩ := Option.map_eq_some_iff.1 hk
    exact (s.holds_iff_contains _).1 (GridSpan.holds_of_nearest hn)
  | none =>
    have hpow : (0 : ℚ) < 2 ^ s.unit := zpow_pos (by norm_num) _
    have hlow' : (s.low : ℚ) * 2 ^ s.unit < s.mid * 2 ^ s.unit :=
      mul_lt_mul_of_pos_right (by exact_mod_cast hlow) hpow
    have hhigh' : (s.mid : ℚ) * 2 ^ s.unit < s.high * 2 ^ s.unit :=
      mul_lt_mul_of_pos_right (by exact_mod_cast hhigh) hpow
    rw [Option.getD_none, Contains, value_exactly]
    split
    · exact ⟨hlow'.le, hhigh'.le⟩
    · exact ⟨hlow', hhigh'⟩

def mantissa (exponent fraction : ℕ) : ℕ :=
  if exponent = 0 then fraction else fractionSize + fraction

def lastPlace (exponent : ℕ) : ℤ := (max exponent 1 : ℕ) - 1075

theorem ofFields_eq (exponent fraction : ℕ) :
    ofFields exponent fraction =
      { low := if fraction = 0 ∧ 1 < exponent then 4 * mantissa exponent fraction - 1
          else 4 * mantissa exponent fraction - 2
        mid := 4 * mantissa exponent fraction
        high := 4 * mantissa exponent fraction + 2
        closed := mantissa exponent fraction % 2 == 0
        unit := lastPlace exponent - 2 } := by
  have hunit : ((max exponent 1 : ℕ) : ℤ) - 1077 = lastPlace exponent - 2 := by
    rw [lastPlace]
    omega
  rw [← hunit]
  rfl

theorem mantissa_lt (exponent : ℕ) {fraction : ℕ} (h : fraction < fractionSize) :
    mantissa exponent fraction < 2 ^ 53 := by
  have hsize : fractionSize = 2 ^ 52 := rfl
  rw [mantissa]
  split <;> omega

theorem le_lastPlace (exponent : ℕ) : -1074 ≤ lastPlace exponent := by
  rw [lastPlace]
  omega

theorem le_mantissa_or (exponent fraction : ℕ) :
    2 ^ 52 ≤ mantissa exponent fraction ∨ lastPlace exponent = -1074 := by
  have hsize : fractionSize = 2 ^ 52 := rfl
  rw [mantissa, lastPlace]
  split <;> omega

section Fields

variable {exponent fraction : ℕ} (hpos : 0 < mantissa exponent fraction)

include hpos

theorem contains_shortest_ofFields :
    (ofFields exponent fraction).Contains (ofFields exponent fraction).shortest.value := by
  apply contains_shortest
  · simp only [ofFields_eq]
    split <;> omega
  · simp only [ofFields_eq]
    omega

theorem ofFields_low :
    ((ofFields exponent fraction).low : ℚ) =
      4 * mantissa exponent fraction - if fraction = 0 ∧ 1 < exponent then 1 else 2 := by
  simp only [ofFields_eq]
  split
  · rw [Nat.cast_sub (by omega)]
    push_cast
    rfl
  · rw [Nat.cast_sub (by omega)]
    push_cast
    rfl

/-- A rational in the span of a float is at most half a unit of the last place away from it, and less
if the mantissa is odd. Below a power of two it is at most a quarter of a unit away. -/
theorem Contains.withinHalf {q : ℚ} (h : (ofFields exponent fraction).Contains q) :
    WithinHalf (q / 2 ^ lastPlace exponent) (mantissa exponent fraction) ∧
      (fraction = 0 → 1 < exponent →
        (mantissa exponent fraction : ℚ) - 1 / 4 ≤ q / 2 ^ lastPlace exponent) := by
  have hpow : (0 : ℚ) < 2 ^ lastPlace exponent := zpow_pos (by norm_num) _
  have hunit (a : ℚ) : a * 2 ^ (lastPlace exponent - 2) = a / 4 * 2 ^ lastPlace exponent := by
    rw [zpow_sub₀ (by norm_num)]
    ring
  obtain ⟨x, rfl⟩ : ∃ x, q = x * 2 ^ lastPlace exponent :=
    ⟨q / 2 ^ lastPlace exponent, (div_mul_cancel₀ q hpow.ne').symm⟩
  rw [mul_div_cancel_right₀ x hpow.ne', WithinHalf, Int.cast_natCast]
  rw [Contains, ofFields_low hpos] at h
  simp only [ofFields_eq, hunit, beq_iff_eq, mul_le_mul_iff_left₀ hpow,
    mul_lt_mul_iff_left₀ hpow] at h
  push_cast at h
  split_ifs at h with heven hpower hpower
  · exact ⟨⟨by linarith, by linarith, .inl (by omega)⟩, fun _ _ => by linarith⟩
  · exact ⟨⟨by linarith, by linarith, .inl (by omega)⟩, fun hf he => absurd ⟨hf, he⟩ hpower⟩
  · exact ⟨⟨by linarith, by linarith, .inr ⟨by linarith, by linarith⟩⟩, fun _ _ => by linarith⟩
  · exact ⟨⟨by linarith, by linarith, .inr ⟨by linarith, by linarith⟩⟩,
      fun hf he => absurd ⟨hf, he⟩ hpower⟩

theorem Contains.nearest_eq {q : ℚ} (hfraction : fraction < fractionSize)
    (h : (ofFields exponent fraction).Contains q) :
    nearest q = mantissa exponent fraction * 2 ^ lastPlace exponent := by
  obtain ⟨hhalf, hquarter⟩ := h.withinHalf hpos
  have hlt := mantissa_lt exponent hfraction
  have hmin := le_mantissa_or exponent fraction
  have hnearest := nearest_of_withinHalf (by omega) (by omega) (le_lastPlace exponent) (by omega)
    hhalf fun hm he => ?_
  · rwa [Int.cast_natCast] at hnearest
  · have hsize : fractionSize = 2 ^ 52 := rfl
    rw [lastPlace] at he
    rw [mantissa, if_neg (by omega)] at hm
    exact_mod_cast hquarter (by omega) (by omega)

end Fields

/-- The least positive float is written with one digit. -/
example : (ofFields 0 1).shortest = ⟨5, -324⟩ := by decide +kernel

end RoundingSpan

end PlaneFigures
