import PlaneFigures.Proofs.Binary64
import PlaneFigures.Proofs.Rounding

/-!
# Binary64 subtraction as rounding

A mantissa is rounded by way of two further bits, which tell on which side of the half the fraction
lies and whether it is exact. Shifting to the right keeps that reading, so that a rounded mantissa
is the nearest integer to the number read, and a rounded result the nearest binary64 number to the
exact one. The main statement is that the difference of two finite numbers is the exact difference,
rounded once. The exponent is unbounded throughout: only packing knows a greatest one.
-/

namespace PlaneFigures.Binary64

open Float.Model (Format UnpackedFloat totalExponent)
open Float.Model.UnpackedFloat (Accuracy ExtendedMantissa Sign decreaseExponent roundWithAccuracy
  shiftToExponent shiftToTargetExponent)

/-- The mantissa with its two further bits stands for the number `q`: the bits tell on which side of
the half the fraction is, and whether it is exact. -/
structure Reads (em : ExtendedMantissa) (q : ℚ) : Prop where
  le : (em.mantissa : ℚ) ≤ q
  lt : q < em.mantissa + 1
  roundBit : em.roundBit = true ↔ em.mantissa + 1 / 2 ≤ q
  stickyBit : em.stickyBit = true ↔ q ≠ em.mantissa ∧ q ≠ em.mantissa + 1 / 2

theorem reads_exact (m : ℕ) : Reads (.ofMantissaAndAccuracy m .exact) m where
  le := le_refl _
  lt := by simp [ExtendedMantissa.ofMantissaAndAccuracy]
  roundBit := by simp [ExtendedMantissa.ofMantissaAndAccuracy]
  stickyBit := by simp [ExtendedMantissa.ofMantissaAndAccuracy]

theorem Reads.inexact {em : ExtendedMantissa} {q : ℚ} (h : Reads em q) :
    (em.roundBit || em.stickyBit) = true ↔ q ≠ em.mantissa := by
  rw [Bool.or_eq_true, h.roundBit, h.stickyBit]
  constructor
  · rintro (hhalf | hne) heq
    · linarith
    · exact hne.1 heq
  · intro hne
    by_cases hhalf : q = em.mantissa + 1 / 2
    · exact Or.inl hhalf.ge
    · exact Or.inr ⟨hne, hhalf⟩

theorem Reads.shiftRightOne {em : ExtendedMantissa} {q : ℚ} (h : Reads em q) :
    Reads em.shiftRightOne (q / 2) := by
  have hle := h.le
  have hlt := h.lt
  have hsticky := h.inexact
  -- The bit that is shifted out decides about the half, the two old bits about exactness.
  obtain ⟨k, hk | hk⟩ := Nat.even_or_odd' em.mantissa
  · have hdiv : em.mantissa / 2 = k := by omega
    have hmod : (em.mantissa % 2 != 0) = false := by simp [hk]
    rw [hk] at hle hlt hsticky
    push_cast at hle hlt hsticky
    constructor <;> simp only [ExtendedMantissa.shiftRightOne, hdiv, hmod, hsticky] <;> grind
  · have hdiv : em.mantissa / 2 = k := by omega
    have hmod : (em.mantissa % 2 != 0) = true := by simp [hk]
    rw [hk] at hle hlt hsticky
    push_cast at hle hlt hsticky
    constructor <;> simp only [ExtendedMantissa.shiftRightOne, hdiv, hmod, hsticky] <;> grind

theorem Reads.shiftRight {em : ExtendedMantissa} {q : ℚ} (h : Reads em q) (k : ℕ) :
    Reads (em >>> k) (q / 2 ^ k) := by
  change Reads (k.repeat ExtendedMantissa.shiftRightOne em) _
  induction k with
  | zero =>
    rw [pow_zero, div_one]
    exact h
  | succ k ih =>
    rw [pow_succ, ← div_div]
    exact ih.shiftRightOne

theorem Reads.roundedMantissa {em : ExtendedMantissa} {q : ℚ} (h : Reads em q) :
    (em.roundedMantissa : ℤ) = nearestEven q := by
  obtain ⟨hle, hlt, hround, hsticky⟩ := h
  have hfloor : ⌊q⌋ = em.mantissa := Int.floor_eq_iff.2 ⟨hle, hlt⟩
  rw [nearestEven, hfloor, Int.cast_natCast]
  obtain ⟨m, roundBit, stickyBit⟩ := em
  cases roundBit <;> cases stickyBit <;>
    simp only [ExtendedMantissa.roundedMantissa, ExtendedMantissa.accuracy,
      Accuracy.roundToNearestEven] <;> grind

theorem log_eq {m : ℕ} (hm : 0 < m) {x : ℚ} (hle : (m : ℚ) ≤ x) (hlt : x < m + 1) (e : ℤ) :
    Int.log 2 (x * 2 ^ e) = m.log2 + e := by
  have hpow : (0 : ℚ) < 2 ^ e := zpow_pos (by norm_num) e
  have hx : 0 < x * 2 ^ e := mul_pos (lt_of_lt_of_le (by exact_mod_cast hm) hle) hpow
  have hlow : (2 : ℚ) ^ m.log2 ≤ x := by
    have h : 2 ^ m.log2 ≤ m := Nat.log2_self_le hm.ne'
    exact le_trans (by exact_mod_cast h) hle
  have hhigh : x < (2 : ℚ) ^ (m.log2 + 1) := by
    have h : m + 1 ≤ 2 ^ (m.log2 + 1) := Nat.lt_log2_self
    exact lt_of_lt_of_le hlt (by exact_mod_cast h)
  apply le_antisymm
  · have h : x * 2 ^ e < (2 : ℚ) ^ ((m.log2 : ℤ) + e + 1) := by
      rw [add_right_comm, zpow_add₀ (by norm_num), ← Nat.cast_succ, zpow_natCast]
      exact mul_lt_mul_of_pos_right hhigh hpow
    have h' := (Int.lt_zpow_iff_log_lt (b := 2) (by norm_num) hx).1 h
    omega
  · have h : (2 : ℚ) ^ ((m.log2 : ℤ) + e) ≤ x * 2 ^ e := by
      rw [zpow_add₀ (by norm_num), zpow_natCast]
      exact mul_le_mul_of_nonneg_right hlow hpow.le
    exact (Int.zpow_le_iff_le_log (b := 2) (by norm_num) hx).1 h

theorem targetExponent_eq {m : ℕ} (hm : 0 < m) {x : ℚ} (hle : (m : ℚ) ≤ x) (hlt : x < m + 1)
    (e : ℤ) :
    Format.binary64.targetExponent (totalExponent m e) = placeExponent (x * 2 ^ e) := by
  have hx : 0 < x := lt_of_lt_of_le (by exact_mod_cast hm) hle
  rw [placeExponent, abs_of_pos (mul_pos hx (zpow_pos (by norm_num) e)), log_eq hm hle hlt]
  change max _ (-1074 : ℤ) = _
  simp only [totalExponent, Format.mantissaBits]
  omega

def signed : Sign → ℚ → ℚ
  | .positive, q => q
  | .negative, q => -q

def limit : ℚ := 2 ^ (1024 : ℤ)

theorem limit_pos : 0 < limit := zpow_pos (by norm_num) _

/-- The rational that an unpacked number stands for. An infinity stands for the limit of the range,
and the value that is not a number for zero. -/
def valueOf : UnpackedFloat → ℚ
  | .notANumber => 0
  | .infinity s => signed s limit
  | .zero _ => 0
  | .finite s m e _ => signed s (m * 2 ^ e)

@[simp] theorem valueOf_zero (s : Sign) : valueOf (.zero s) = 0 := rfl

/-- The number is finite and in the form that rounding leaves: its mantissa has 53 bits, or fewer if
its exponent is the least one. -/
def Normal : UnpackedFloat → Prop
  | .notANumber => False
  | .infinity _ => False
  | .zero _ => True
  | .finite _ m e _ => m < 2 ^ 53 ∧ -1074 ≤ e ∧ (2 ^ 52 ≤ m ∨ e = -1074)

theorem shiftToTargetExponent_of_lt {r : ℕ} {t : ℤ} (hr : r < 2 ^ 53) (ht : -1074 ≤ t) :
    shiftToTargetExponent .binary64 r t .exact = (.ofMantissaAndAccuracy r .exact, t) := by
  have hlog : r.log2 < 53 := by
    by_cases hz : r = 0
    · rw [hz]
      decide
    · exact (Nat.log2_lt hz).2 hr
  have htarget : Format.binary64.targetExponent (totalExponent r t) - t ≤ 0 := by
    change max _ (-1074 : ℤ) - t ≤ 0
    simp only [totalExponent, Format.mantissaBits]
    omega
  rw [shiftToTargetExponent, shiftToExponent, Int.toNat_of_nonpos htarget]
  simp only [Nat.cast_zero, add_zero]
  rfl

theorem shiftToTargetExponent_of_carry {t : ℤ} (ht : -1074 ≤ t) :
    shiftToTargetExponent .binary64 (2 ^ 53) t .exact =
      (.ofMantissaAndAccuracy (2 ^ 52) .exact, t + 1) := by
  have htarget : Format.binary64.targetExponent (totalExponent (2 ^ 53) t) = t + 1 := by
    change max _ (-1074 : ℤ) = t + 1
    simp only [totalExponent, Format.mantissaBits, Nat.log2_two_pow]
    omega
  have hone : (t + 1 - t).toNat = 1 := by omega
  rw [shiftToTargetExponent, htarget, shiftToExponent, hone]
  rfl

theorem mantissa_ofMantissaAndAccuracy (m : ℕ) (a : Accuracy) :
    (ExtendedMantissa.ofMantissaAndAccuracy m a).mantissa = m := by
  cases a with
  | exact => rfl
  | inexact o => cases o <;> rfl

theorem shiftToTargetExponent_eq {m : ℕ} {a : Accuracy} {x : ℚ}
    (hx : Reads (.ofMantissaAndAccuracy m a) x) {e : ℤ}
    (htarget : Format.binary64.targetExponent (totalExponent m e) = placeExponent (x * 2 ^ e))
    (he : e ≤ placeExponent (x * 2 ^ e)) :
    (shiftToTargetExponent .binary64 m e a).2 = placeExponent (x * 2 ^ e) ∧
      ((shiftToTargetExponent .binary64 m e a).1.roundedMantissa : ℤ) =
        nearestEven (x * 2 ^ e / place (x * 2 ^ e)) := by
  have hshift : ((placeExponent (x * 2 ^ e) - e).toNat : ℤ) = placeExponent (x * 2 ^ e) - e :=
    Int.toNat_of_nonneg (by omega)
  rw [shiftToTargetExponent, htarget, shiftToExponent]
  constructor
  · simp only [hshift]
    omega
  · have hscale : x * 2 ^ e / place (x * 2 ^ e) =
        x / 2 ^ (placeExponent (x * 2 ^ e) - e).toNat := by
      rw [← zpow_natCast, hshift, place, zpow_sub₀ (by norm_num)]
      field_simp
    rw [hscale]
    exact (hx.shiftRight _).roundedMantissa

def number (s : Sign) (m : ℕ) (e : ℤ) : UnpackedFloat :=
  if h : m = 0 then .zero s else .finite s m e (Nat.pos_of_ne_zero h)

theorem number_spec (s : Sign) {m : ℕ} {e : ℤ} (hm : m < 2 ^ 53) (he : -1074 ≤ e)
    (hmin : 2 ^ 52 ≤ m ∨ e = -1074) :
    Normal (number s m e) ∧ valueOf (number s m e) = signed s (m * 2 ^ e) := by
  by_cases hz : m = 0
  · rw [number, dif_pos hz, hz, Nat.cast_zero, zero_mul]
    exact ⟨trivial, by cases s <;> simp [valueOf, signed]⟩
  · rw [number, dif_neg hz]
    exact ⟨⟨hm, he, hmin⟩, rfl⟩

theorem roundWithAccuracy_eq (s : Sign) (m : ℕ) (e : ℤ) (a : Accuracy) :
    roundWithAccuracy .binary64 s m e a =
      number s
        (shiftToTargetExponent .binary64
          (shiftToTargetExponent .binary64 m e a).1.roundedMantissa
          (shiftToTargetExponent .binary64 m e a).2 .exact).1.mantissa
        (shiftToTargetExponent .binary64
          (shiftToTargetExponent .binary64 m e a).1.roundedMantissa
          (shiftToTargetExponent .binary64 m e a).2 .exact).2 := rfl

theorem roundWithAccuracy_spec (s : Sign) {m : ℕ} {a : Accuracy} {x : ℚ} (hpos : 0 < x)
    (hx : Reads (.ofMantissaAndAccuracy m a) x) {e : ℤ}
    (htarget : Format.binary64.targetExponent (totalExponent m e) = placeExponent (x * 2 ^ e))
    (he : e ≤ placeExponent (x * 2 ^ e)) :
    Normal (roundWithAccuracy .binary64 s m e a) ∧
      valueOf (roundWithAccuracy .binary64 s m e a) = signed s (nearest (x * 2 ^ e)) := by
  obtain ⟨hexp, hmant⟩ := shiftToTargetExponent_eq hx htarget he
  rw [roundWithAccuracy_eq, hexp]
  generalize (shiftToTargetExponent .binary64 m e a).1.roundedMantissa = r at hmant ⊢
  have hq : 0 < x * 2 ^ e := mul_pos hpos (zpow_pos (by norm_num) e)
  have hmin : -1074 ≤ placeExponent (x * 2 ^ e) := le_max_right _ _
  have hle := mantissa_le hq
  have hge := le_mantissa hq
  have hnearest : nearest (x * 2 ^ e) = r * 2 ^ placeExponent (x * 2 ^ e) := by
    rw [nearest, ← hmant, Int.cast_natCast, place]
  rw [← hmant] at hle hge
  rw [hnearest]
  -- Rounding up may carry into a 54th bit; the second shift then takes one place back.
  by_cases hcarry : r < 2 ^ 53
  · rw [shiftToTargetExponent_of_lt hcarry hmin]
    exact number_spec s hcarry hmin (by exact_mod_cast hge)
  · have hr : r = 2 ^ 53 := by omega
    have hscale : (r : ℚ) * 2 ^ placeExponent (x * 2 ^ e) =
        ((2 ^ 52 : ℕ) : ℚ) * 2 ^ (placeExponent (x * 2 ^ e) + 1) := by
      rw [hr, zpow_add₀ (by norm_num)]
      push_cast
      ring
    rw [hscale, hr, shiftToTargetExponent_of_carry hmin]
    exact number_spec (m := 2 ^ 52) s (by norm_num) (by omega) (Or.inl (le_refl _))

theorem decreaseExponent_value (m : ℕ) (e t : ℤ) :
    ((decreaseExponent m e t).1 : ℚ) * 2 ^ (decreaseExponent m e t).2 = m * 2 ^ e := by
  simp only [decreaseExponent, Nat.shiftLeft_eq]
  push_cast
  rw [zpow_sub₀ (by norm_num), zpow_natCast]
  field_simp

theorem round_spec (s : Sign) {m : ℕ} (hm : 0 < m) (e : ℤ) :
    Normal (UnpackedFloat.round .binary64 s m e) ∧
      valueOf (UnpackedFloat.round .binary64 s m e) = signed s (nearest (m * 2 ^ e)) := by
  have htarget := targetExponent_eq hm (le_refl (m : ℚ)) (lt_add_one _) e
  have hvalue := decreaseExponent_value m e (placeExponent (m * 2 ^ e))
  have hpos : 0 < (decreaseExponent m e (placeExponent (m * 2 ^ e))).1 := by
    rw [decreaseExponent, Nat.shiftLeft_eq]
    positivity
  have hexp : (decreaseExponent m e (placeExponent (m * 2 ^ e))).2 ≤ placeExponent (m * 2 ^ e) := by
    rw [decreaseExponent]
    omega
  have h := roundWithAccuracy_spec s (Nat.cast_pos.2 hpos) (reads_exact _)
    (targetExponent_eq hpos (le_refl _) (lt_add_one _) _) (hexp.trans_eq (by rw [hvalue]))
  rw [hvalue] at h
  rw [UnpackedFloat.round, htarget]
  exact h

theorem normalize_spec (m e : ℤ) (z : Sign) :
    Normal (UnpackedFloat.normalize .binary64 m e z) ∧
      valueOf (UnpackedFloat.normalize .binary64 m e z) = nearest (m * 2 ^ e) := by
  rcases lt_trichotomy m 0 with hm | rfl | hm
  · have hcompare : compare m 0 = .lt := Int.compare_eq_lt.2 hm
    have hcast : (((-m).toNat : ℕ) : ℚ) = -m := by
      have h : (((-m).toNat : ℕ) : ℤ) = -m := Int.toNat_of_nonneg (by omega)
      exact_mod_cast h
    obtain ⟨hnormal, hvalue⟩ := round_spec .negative (m := (-m).toNat) (by omega) e
    rw [hcast, neg_mul, nearest_neg] at hvalue
    simp only [UnpackedFloat.normalize, hcompare]
    exact ⟨hnormal, hvalue.trans (neg_neg _)⟩
  · rw [Int.cast_zero, zero_mul, nearest_zero]
    exact ⟨trivial, rfl⟩
  · have hcompare : compare m 0 = .gt := Int.compare_eq_gt.2 hm
    have hcast : ((m.toNat : ℕ) : ℚ) = m := by
      have h : ((m.toNat : ℕ) : ℤ) = m := Int.toNat_of_nonneg hm.le
      exact_mod_cast h
    obtain ⟨hnormal, hvalue⟩ := round_spec .positive (m := m.toNat) (by omega) e
    rw [hcast] at hvalue
    simp only [UnpackedFloat.normalize, hcompare]
    exact ⟨hnormal, hvalue⟩

theorem placeExponent_of_normal {s : Sign} {m : ℕ} {e : ℤ} {hm : 0 < m}
    (h : Normal (.finite s m e hm)) : placeExponent (m * 2 ^ e) = e := by
  obtain ⟨hlt, hle, hmin⟩ := h
  have hlog : m.log2 < 53 := (Nat.log2_lt hm.ne').2 hlt
  have hlog' : 52 ≤ m.log2 ∨ e = -1074 := hmin.imp_left (Nat.le_log2 hm.ne').2
  rw [← targetExponent_eq hm (le_refl (m : ℚ)) (lt_add_one _) e]
  change max _ (-1074 : ℤ) = e
  simp only [totalExponent, Format.mantissaBits]
  omega

theorem nearest_signed (s : Sign) (q : ℚ) : nearest (signed s q) = signed s (nearest q) := by
  cases s with
  | positive => rfl
  | negative => exact nearest_neg q

theorem nearest_valueOf {u : UnpackedFloat} (hu : Normal u) : nearest (valueOf u) = valueOf u := by
  cases u with
  | notANumber => exact hu.elim
  | infinity s => exact hu.elim
  | zero s => exact nearest_zero
  | finite s m e hm =>
    have hpow : (2 : ℚ) ^ e ≠ 0 := (zpow_pos (by norm_num) e).ne'
    rw [valueOf, nearest_signed, nearest, place, placeExponent_of_normal hu,
      mul_div_cancel_right₀ _ hpow]
    have hm := nearestEven_intCast m
    rw [Int.cast_natCast] at hm
    rw [hm, Int.cast_natCast]

theorem signed_neg (s : Sign) (q : ℚ) : signed (-s) q = -signed s q := by
  cases s with
  | positive => rfl
  | negative => exact (neg_neg q).symm

theorem signed_natCast (s : Sign) (m : ℕ) (q : ℚ) : signed s (m * q) = (s.apply m : ℤ) * q := by
  cases s with
  | positive => rfl
  | negative => simp [signed, Sign.apply]

theorem aligned_value (s : Sign) (m : ℕ) {e t : ℤ} (ht : t ≤ e) :
    ((s.apply ((decreaseExponent m e t).1 : ℕ) : ℤ) : ℚ) * 2 ^ t = signed s (m * 2 ^ e) := by
  have hexp : (decreaseExponent m e t).2 = t := by
    rw [decreaseExponent]
    omega
  rw [← signed_natCast, ← decreaseExponent_value m e t, hexp]

theorem sub_spec {u v : UnpackedFloat} (hu : Normal u) (hv : Normal v) :
    Normal (UnpackedFloat.sub .binary64 u v) ∧
      valueOf (UnpackedFloat.sub .binary64 u v) = nearest (valueOf u - valueOf v) := by
  cases u with
  | notANumber => exact hu.elim
  | infinity s => exact hu.elim
  | zero s =>
    cases v with
    | notANumber => exact hv.elim
    | infinity t => exact hv.elim
    | zero t =>
      rw [valueOf_zero, valueOf_zero, sub_zero, nearest_zero]
      cases s <;> cases t <;> exact ⟨trivial, rfl⟩
    | finite t n k hn =>
      refine ⟨hv, ?_⟩
      rw [valueOf_zero, zero_sub, nearest_neg, nearest_valueOf hv]
      exact signed_neg t _
  | finite s m e hm =>
    cases v with
    | notANumber => exact hv.elim
    | infinity t => exact hv.elim
    | zero t =>
      refine ⟨hu, ?_⟩
      rw [valueOf_zero, sub_zero, nearest_valueOf hu]
      rfl
    | finite t n k hn =>
      have hdiff := normalize_spec
        (s.apply ((decreaseExponent m e (min e k)).1 : ℕ) -
          t.apply ((decreaseExponent n k (min e k)).1 : ℕ)) (min e k) .positive
      rw [Int.cast_sub, sub_mul, aligned_value s m (min_le_left e k),
        aligned_value t n (min_le_right e k)] at hdiff
      exact hdiff

end PlaneFigures.Binary64
