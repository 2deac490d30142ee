import PlaneFigures.Proofs.Binary64Closeness

/-!
# Binary64 arithmetic as rounding

Each of the four operations on finite binary64 numbers is the exact operation on the rationals for
which they stand, rounded once; a result that is rounded out of range is an infinity. Addition is
subtraction of the opposite number. A product keeps all its bits until it is rounded. A quotient is
cut off after enough bits for its last place, and the remainder decides about the two further bits by
which it is rounded. It may have no bit left before these if the quotient is below the least positive
number.
-/

namespace PlaneFigures.Binary64

open Float.Model (Format UnpackedFloat totalExponent)
open Float.Model.UnpackedFloat (Accuracy ExtendedMantissa Sign accuracyOfFraction divCore pack unpack)

theorem add_eq_sub_neg (u v : UnpackedFloat) :
    UnpackedFloat.add .binary64 u v = UnpackedFloat.sub .binary64 u v.neg := by
  cases u with
  | notANumber => cases v <;> rfl
  | infinity s =>
    cases v with
    | infinity t => cases s <;> cases t <;> rfl
    | _ => rfl
  | zero s =>
    cases v with
    | zero t => cases s <;> cases t <;> rfl
    | finite t n k hn => cases t <;> rfl
    | infinity t => cases t <;> rfl
    | notANumber => rfl
  | finite s m e hm =>
    cases v with
    | finite t n k hn =>
      have hneg (i : ℤ) : (-t).apply i = -t.apply i := by
        cases t with
        | positive => rfl
        | negative => exact (neg_neg i).symm
      simp only [UnpackedFloat.add, UnpackedFloat.sub, UnpackedFloat.neg, hneg, sub_neg_eq_add]
    | infinity t => cases t <;> rfl
    | _ => rfl

theorem valueOf_neg (u : UnpackedFloat) : valueOf u.neg = -valueOf u := by
  cases u with
  | notANumber => exact neg_zero.symm
  | infinity s => exact signed_neg s limit
  | zero s => exact neg_zero.symm
  | finite s m e hm => exact signed_neg s _

theorem normal_neg {u : UnpackedFloat} (hu : Normal u) : Normal u.neg := by
  cases u with
  | notANumber => exact hu
  | infinity s => exact hu
  | zero s => trivial
  | finite s m e hm => exact hu

theorem add_spec {u v : UnpackedFloat} (hu : Normal u) (hv : Normal v) :
    Normal (UnpackedFloat.add .binary64 u v) ∧
      valueOf (UnpackedFloat.add .binary64 u v) = nearest (valueOf u + valueOf v) := by
  have h := sub_spec hu (normal_neg hv)
  rwa [← add_eq_sub_neg, valueOf_neg, sub_neg_eq_add] at h

theorem signed_mul (s t : Sign) (p q : ℚ) : signed (s * t) (p * q) = signed s p * signed t q := by
  cases s <;> cases t
  · exact (neg_mul_neg p q).symm
  · exact (neg_mul p q).symm
  · exact (mul_neg p q).symm
  · rfl

theorem mul_exponent_le {s t : Sign} {m n : ℕ} {e k : ℤ} {hm : 0 < m} {hn : 0 < n}
    (hu : Normal (.finite s m e hm)) (hv : Normal (.finite t n k hn)) :
    e + k ≤ Format.binary64.targetExponent (totalExponent (m * n) (e + k)) := by
  have hpos : 0 < m * n := Nat.mul_pos hm hn
  change _ ≤ max _ (-1074 : ℤ)
  simp only [totalExponent, Format.mantissaBits]
  by_cases hfull : 2 ^ 52 ≤ m * n
  · have hlog : 52 ≤ (m * n).log2 := (Nat.le_log2 hpos.ne').2 hfull
    omega
  · -- Both factors are then below the normal range, and have the least exponent.
    have hm52 : ¬2 ^ 52 ≤ m := fun h => hfull (h.trans (Nat.le_mul_of_pos_right m hn))
    have hn52 : ¬2 ^ 52 ≤ n := fun h => hfull (h.trans (Nat.le_mul_of_pos_left n hm))
    have he := hu.2.2.resolve_left hm52
    have hk := hv.2.2.resolve_left hn52
    omega

theorem mul_spec {u v : UnpackedFloat} (hu : Normal u) (hv : Normal v) :
    Normal (UnpackedFloat.mul .binary64 u v) ∧
      valueOf (UnpackedFloat.mul .binary64 u v) = nearest (valueOf u * valueOf v) := by
  cases u with
  | notANumber => exact hu.elim
  | infinity s => exact hu.elim
  | zero s =>
    rw [valueOf_zero, zero_mul, nearest_zero]
    cases v with
    | notANumber => exact hv.elim
    | infinity t => exact hv.elim
    | zero t => exact ⟨trivial, rfl⟩
    | finite t n k hn => exact ⟨trivial, rfl⟩
  | finite s m e hm =>
    cases v with
    | notANumber => exact hv.elim
    | infinity t => exact hv.elim
    | zero t =>
      rw [valueOf_zero, mul_zero, nearest_zero]
      exact ⟨trivial, rfl⟩
    | finite t n k hn =>
      have hpos : 0 < m * n := Nat.mul_pos hm hn
      have htarget := targetExponent_eq hpos (le_refl _) (lt_add_one _) (e + k)
      have h := roundWithAccuracy_spec (s * t) (Nat.cast_pos.2 hpos) (reads_exact (m * n)) htarget
        (htarget ▸ mul_exponent_le hu hv)
      have hvalue : ((m * n : ℕ) : ℚ) * 2 ^ (e + k) = m * 2 ^ e * (n * 2 ^ k) := by
        rw [Nat.cast_mul, zpow_add₀ (by norm_num)]
        ring
      rw [hvalue, ← nearest_signed, signed_mul] at h
      exact h

/-- A quotient that is cut off, with the accuracy of its remainder, stands for the exact quotient. -/
theorem reads_fraction (n : ℕ) {d : ℕ} (hd : 0 < d) :
    Reads (.ofMantissaAndAccuracy (n / d) (accuracyOfFraction (n % d) d)) (n / d : ℚ) := by
  have hd' : (0 : ℚ) < d := Nat.cast_pos.2 hd
  have hsplit : (n / d : ℚ) = ((n / d : ℕ) : ℚ) + ((n % d : ℕ) : ℚ) / d := by
    have h : ((d * (n / d) + n % d : ℕ) : ℚ) = n := congrArg Nat.cast (Nat.div_add_mod n d)
    push_cast at h
    rw [← h]
    field_simp
  have hlt : ((n % d : ℕ) : ℚ) / d < 1 := (div_lt_one hd').2 (by exact_mod_cast Nat.mod_lt n hd)
  rw [hsplit, accuracyOfFraction]
  generalize n % d = r at hlt ⊢
  by_cases hr : r = 0
  · subst hr
    rw [if_pos rfl, Nat.cast_zero, zero_div, add_zero]
    exact reads_exact _
  · have hpos : (0 : ℚ) < (r : ℚ) / d := div_pos (Nat.cast_pos.2 (Nat.pos_of_ne_zero hr)) hd'
    have hhalf : (r : ℚ) / d < 1 / 2 ↔ 2 * r < d := by
      rw [div_lt_div_iff₀ hd' two_pos]
      norm_cast
      omega
    have hhalf' : 1 / 2 < (r : ℚ) / d ↔ d < 2 * r := by
      rw [div_lt_div_iff₀ two_pos hd']
      norm_cast
      omega
    rw [if_neg hr]
    generalize (r : ℚ) / d = x at *
    rcases lt_trichotomy (2 * r) d with h | h | h
    · rw [Nat.compare_eq_lt.2 h]
      have hx := hhalf.2 h
      constructor <;> simp only [ExtendedMantissa.ofMantissaAndAccuracy] <;> grind
    · rw [Nat.compare_eq_eq.2 h]
      have hx := mt hhalf.1 h.not_lt
      have hx' := mt hhalf'.1 h.not_gt
      constructor <;> simp only [ExtendedMantissa.ofMantissaAndAccuracy] <;> grind
    · rw [Nat.compare_eq_gt.2 h]
      have hx := hhalf'.2 h
      constructor <;> simp only [ExtendedMantissa.ofMantissaAndAccuracy] <;> grind

theorem log_quotient_ge {m n : ℕ} (hm : 0 < m) (hn : 0 < n) (i : ℤ) :
    (m.log2 : ℤ) - n.log2 - 1 + i ≤ Int.log 2 ((m / n : ℚ) * 2 ^ i) := by
  have hm' : (0 : ℚ) < m := Nat.cast_pos.2 hm
  have hn' : (0 : ℚ) < n := Nat.cast_pos.2 hn
  have hpow : (0 : ℚ) < 2 ^ i := zpow_pos (by norm_num) i
  have hlow : (2 : ℚ) ^ (m.log2 : ℤ) ≤ m := by
    rw [zpow_natCast]
    exact_mod_cast Nat.log2_self_le hm.ne'
  have hhigh : (n : ℚ) ≤ 2 ^ ((n.log2 : ℤ) + 1) := by
    have h : n < 2 ^ (n.log2 + 1) := Nat.lt_log2_self
    rw [← Nat.cast_succ, zpow_natCast]
    exact_mod_cast h.le
  apply (Int.zpow_le_iff_le_log (by norm_num) (by positivity)).1
  rw [zpow_add₀ (by norm_num)]
  refine mul_le_mul_of_nonneg_right ?_ hpow.le
  rw [le_div_iff₀ hn']
  calc
    (2 : ℚ) ^ ((m.log2 : ℤ) - n.log2 - 1) * n
        ≤ 2 ^ ((m.log2 : ℤ) - n.log2 - 1) * 2 ^ ((n.log2 : ℤ) + 1) :=
      mul_le_mul_of_nonneg_left hhigh (zpow_pos (by norm_num) _).le
    _ = 2 ^ (m.log2 : ℤ) := by
      rw [← zpow_add₀ (by norm_num)]
      congr 1
      omega
    _ ≤ m := hlow

/-- The exponent of the last place can be read off a mantissa that is cut off, even if nothing is
left of it. -/
theorem targetExponent_of_reads {m : ℕ} {a : Accuracy} {x : ℚ} (hpos : 0 < x)
    (hx : Reads (.ofMantissaAndAccuracy m a) x) {e : ℤ} (he : e ≤ placeExponent (x * 2 ^ e)) :
    Format.binary64.targetExponent (totalExponent m e) = placeExponent (x * 2 ^ e) := by
  have hle := hx.le
  have hlt := hx.lt
  rw [mantissa_ofMantissaAndAccuracy] at hle hlt
  rcases Nat.eq_zero_or_pos m with rfl | hm
  · rw [Nat.cast_zero, zero_add] at hlt
    have hpow : (0 : ℚ) < 2 ^ e := zpow_pos (by norm_num) e
    have hq : 0 < x * 2 ^ e := mul_pos hpos hpow
    have hsmall : x * 2 ^ e < 2 ^ e := mul_lt_of_lt_one_left hpow hlt
    have hlog : Int.log 2 (x * 2 ^ e) < e := (Int.lt_zpow_iff_log_lt (by norm_num) hq).1 hsmall
    rw [placeExponent, abs_of_pos hq] at he ⊢
    change max _ (-1074 : ℤ) = _
    simp only [totalExponent, Format.mantissaBits, Nat.log2_zero]
    omega
  · exact targetExponent_eq hm hle hlt e

theorem divCore_spec {m n : ℕ} (hm : 0 < m) (hn : 0 < n) (e k : ℤ) :
    ∃ x : ℚ, 0 < x ∧ x * 2 ^ (divCore .binary64 m e n k).2.1 = m * 2 ^ e / (n * 2 ^ k) ∧
      Reads (.ofMantissaAndAccuracy (divCore .binary64 m e n k).1 (divCore .binary64 m e n k).2.2)
        x ∧
      (divCore .binary64 m e n k).2.1 ≤
        placeExponent (x * 2 ^ (divCore .binary64 m e n k).2.1) := by
  have hn' : (0 : ℚ) < n := Nat.cast_pos.2 hn
  have hm' : (0 : ℚ) < m := Nat.cast_pos.2 hm
  generalize hE : (divCore .binary64 m e n k).2.1 = E
  have hle : E ≤ e - k := by
    rw [← hE]
    exact min_le_left _ _
  have hshift : (((e - k - E).toNat : ℕ) : ℤ) = e - k - E := Int.toNat_of_nonneg (by omega)
  have hvalue : ((m <<< (e - k - E).toNat : ℕ) / n : ℚ) * 2 ^ E = (m / n : ℚ) * 2 ^ (e - k) := by
    rw [Nat.shiftLeft_eq, Nat.cast_mul, Nat.cast_pow, Nat.cast_ofNat, ← zpow_natCast, hshift,
      zpow_sub₀ (by norm_num) (e - k)]
    field_simp
  refine ⟨(m <<< (e - k - E).toNat : ℕ) / n, ?_, ?_, ?_, ?_⟩
  · rw [Nat.shiftLeft_eq]
    positivity
  · rw [hvalue, zpow_sub₀ (by norm_num)]
    field_simp
  · rw [← hE]
    exact reads_fraction _ hn
  · have hlog := log_quotient_ge hm hn (e - k)
    have hq : (0 : ℚ) < (m / n : ℚ) * 2 ^ (e - k) := by positivity
    have htarget : E ≤ max ((m.log2 : ℤ) - n.log2 + (e - k) - 53) (-1074) := by
      rw [← hE]
      refine (min_le_right _ _).trans ?_
      change max _ (-1074 : ℤ) ≤ _
      simp only [totalExponent, Format.mantissaBits]
      omega
    rw [hvalue, placeExponent, abs_of_pos hq]
    omega

theorem signed_div (s t : Sign) (p q : ℚ) : signed (s / t) (p / q) = signed s p / signed t q := by
  cases s <;> cases t
  · exact (neg_div_neg_eq p q).symm
  · exact (neg_div q p).symm
  · exact (div_neg p).symm
  · rfl

theorem div_spec {u v : UnpackedFloat} (hu : Normal u) (hv : Normal v) (hne : valueOf v ≠ 0) :
    Normal (UnpackedFloat.div .binary64 u v) ∧
      valueOf (UnpackedFloat.div .binary64 u v) = nearest (valueOf u / valueOf v) := by
  cases v with
  | notANumber => exact hv.elim
  | infinity t => exact hv.elim
  | zero t => exact absurd rfl hne
  | finite t n k hn =>
    cases u with
    | notANumber => exact hu.elim
    | infinity s => exact hu.elim
    | zero s =>
      rw [valueOf_zero, zero_div, nearest_zero]
      exact ⟨trivial, rfl⟩
    | finite s m e hm =>
      obtain ⟨x, hpos, hvalue, hreads, hexp⟩ := divCore_spec hm hn e k
      have h := roundWithAccuracy_spec (s / t) hpos hreads
        (targetExponent_of_reads hpos hreads hexp) hexp
      rw [hvalue, ← nearest_signed, signed_div] at h
      exact h

/-- The number is the rational, rounded once, or infinite if the rounded rational is out of range. -/
structure Rounds (a : Float) (q : ℚ) : Prop where
  isNaN : a.isNaN = false
  isFinite_iff : a.isFinite = true ↔ |nearest q| < limit
  value_eq : |nearest q| < limit → value a = nearest q

theorem rounds_pack {u : UnpackedFloat} {q : ℚ} (h : Normal u ∧ valueOf u = nearest q) :
    Rounds (.ofModel (.pack u)) q := by
  obtain ⟨hu, hq⟩ := h
  have hunpack : (Float.ofModel (.pack u)).toModel.unpack = unpack .binary64 (pack .binary64 u) := rfl
  rcases lt_or_ge |nearest q| limit with hlt | hge
  · have hranked := ranked_of_lt hu (hq ▸ hlt)
    rw [unpack_pack_of_lt hu (hq ▸ hlt)] at hunpack
    have hfinite : (Float.ofModel (.pack u)).isFinite = true := by
      change (Float.ofModel (.pack u)).toModel.unpack.isFinite = true
      rw [hunpack, hranked.isFinite_iff, hq]
      exact hlt
    refine ⟨isNaN_of_isFinite hfinite, iff_of_true hfinite hlt, fun _ => ?_⟩
    rw [value, hunpack, hq]
  · obtain ⟨s, hs⟩ := unpack_pack_of_le hu (hq ▸ hge)
    rw [hs] at hunpack
    refine ⟨congrArg UnpackedFloat.isNaN hunpack, iff_of_false ?_ (not_lt.2 hge),
      fun hlt => absurd hlt (not_lt.2 hge)⟩
    intro hfinite
    have hinf : (Float.ofModel (.pack u)).isFinite = false :=
      congrArg UnpackedFloat.isFinite hunpack
    rw [hinf] at hfinite
    cases hfinite

section Operations

variable {a b : Float} (ha : a.isFinite = true) (hb : b.isFinite = true)

include ha hb

theorem rounds_add : Rounds (a + b) (value a + value b) :=
  rounds_pack (add_spec (normal_of_isFinite ha) (normal_of_isFinite hb))

theorem rounds_sub : Rounds (a - b) (value a - value b) :=
  rounds_pack (sub_spec (normal_of_isFinite ha) (normal_of_isFinite hb))

theorem rounds_mul : Rounds (a * b) (value a * value b) :=
  rounds_pack (mul_spec (normal_of_isFinite ha) (normal_of_isFinite hb))

theorem rounds_div (hne : value b ≠ 0) : Rounds (a / b) (value a / value b) :=
  rounds_pack (div_spec (normal_of_isFinite ha) (normal_of_isFinite hb) hne)

end Operations

theorem rounds_neg {a : Float} (ha : a.isFinite = true) : Rounds (-a) (-value a) := by
  have hnormal := normal_of_isFinite ha
  refine rounds_pack ⟨normal_neg hnormal, ?_⟩
  rw [valueOf_neg, nearest_neg, value, nearest_valueOf hnormal]

theorem rounds_abs {a : Float} (ha : a.isFinite = true) : Rounds a.abs |value a| := by
  have hnormal := normal_of_isFinite ha
  refine rounds_pack ⟨normal_abs hnormal, ?_⟩
  rw [valueOf_abs, ← abs_nearest, value, nearest_valueOf hnormal]

theorem nearest_value {a : Float} (ha : a.isFinite = true) : nearest (value a) = value a :=
  nearest_valueOf (normal_of_isFinite ha)

theorem Rounds.of_lt {a : Float} {q : ℚ} (h : Rounds a q) (hq : |nearest q| < limit) :
    a.isFinite = true ∧ value a = nearest q := ⟨h.isFinite_iff.2 hq, h.value_eq hq⟩

theorem Rounds.exact {a : Float} {n e : ℤ} (h : Rounds a (n * 2 ^ e)) (hn : |n| < 2 ^ 53)
    (he : -1074 ≤ e) (he' : e ≤ 971) : a.isFinite = true ∧ value a = n * 2 ^ e := by
  have hnearest := nearest_mul_two_zpow hn he
  have hpow : (0 : ℚ) < 2 ^ e := zpow_pos (by norm_num) e
  have hlt : |(n : ℚ) * 2 ^ e| < limit := by
    calc
      |(n : ℚ) * 2 ^ e| = |(n : ℚ)| * 2 ^ e := by rw [abs_mul, abs_of_pos hpow]
      _ < 2 ^ 53 * 2 ^ e := mul_lt_mul_of_pos_right (by exact_mod_cast hn) hpow
      _ ≤ 2 ^ 53 * 2 ^ (971 : ℤ) :=
        mul_le_mul_of_nonneg_left (zpow_le_zpow_right₀ (by norm_num) he') (by norm_num)
      _ = limit := limit_eq.symm
  have hspec := h.of_lt (hnearest.symm ▸ hlt)
  rwa [hnearest] at hspec

theorem rounds_ofBits {b : UInt64} {u : UnpackedFloat} (h : unpack .binary64 b.toBitVec = u)
    (hu : Normal u) : Rounds (Float.ofBits b) (valueOf u) := by
  subst h
  exact rounds_pack ⟨hu, (nearest_valueOf hu).symm⟩

theorem value_neg {a : Float} (ha : a.isFinite = true) :
    (-a).isFinite = true ∧ value (-a) = -value a := by
  have hnearest : nearest (-value a) = -value a := by rw [nearest_neg, nearest_value ha]
  have h := (rounds_neg ha).of_lt (by rw [hnearest, abs_neg]; exact abs_value_lt ha)
  rwa [hnearest] at h

theorem value_abs {a : Float} (ha : a.isFinite = true) :
    a.abs.isFinite = true ∧ value a.abs = |value a| := by
  have hnearest : nearest |value a| = |value a| := by rw [← abs_nearest, nearest_value ha]
  have h := (rounds_abs ha).of_lt (by rw [hnearest, abs_abs]; exact abs_value_lt ha)
  rwa [hnearest] at h

theorem exists_mantissa {a : Float} (ha : a.isFinite = true) (hle : 1 ≤ a) :
    ∃ m k : ℤ, value a = m * 2 ^ k ∧ 2 ^ 52 ≤ m ∧ m < 2 ^ 53 ∧ -1074 ≤ k := by
  have hvalueOne : value 1 = 1 := by decide +kernel
  have hone := (le_iff_value (by decide +kernel) (isNaN_of_isFinite ha)).1 hle
  have hnormal := normal_of_isFinite ha
  rw [hvalueOne, value] at hone
  rw [value]
  cases hu : a.toModel.unpack with
  | notANumber =>
    rw [hu] at hnormal
    exact hnormal.elim
  | infinity s =>
    rw [hu] at hnormal
    exact hnormal.elim
  | zero s =>
    rw [hu, valueOf_zero] at hone
    exact absurd hone (by norm_num)
  | finite s m e hm =>
    rw [hu] at hnormal hone
    obtain ⟨hm53, he, hm52⟩ := hnormal
    cases s with
    | negative =>
      have hpos : (0 : ℚ) < m * 2 ^ e := by positivity
      exact absurd hone (by simp only [valueOf, signed]; linarith)
    | positive =>
      have hfull : 2 ^ 52 ≤ m := by
        refine hm52.resolve_right fun hmin => ?_
        subst hmin
        have hbinade : (2 : ℚ) ^ 53 * 2 ^ (-1074 : ℤ) < 1 := by
          rw [← zpow_natCast, ← zpow_add₀ (by norm_num)]
          exact zpow_lt_one_of_neg₀ (by norm_num) (by norm_num)
        exact absurd hone (not_le.2 ((lt_binade hm53 (-1074)).trans hbinade))
      exact ⟨m, e, by rw [Int.cast_natCast]; rfl, by omega, by omega, he⟩

theorem isNaN_abs {a : Float} (ha : a.isNaN = false) : a.abs.isNaN = false := by
  cases h : a.toModel.unpack with
  | notANumber =>
    have hnan : a.isNaN = true := congrArg UnpackedFloat.isNaN h
    rw [ha] at hnan
    cases hnan
  | infinity s =>
    change (unpack .binary64 (pack .binary64 a.toModel.unpack.abs)).isNaN = false
    rw [h]
    exact congrArg UnpackedFloat.isNaN (unpack_packedInfinity .positive)
  | zero s => exact isNaN_of_isFinite (value_abs (congrArg UnpackedFloat.isFinite h)).1
  | finite s m e hm => exact isNaN_of_isFinite (value_abs (congrArg UnpackedFloat.isFinite h)).1

theorem sub_of_not_finite {u : UnpackedFloat} (hu : u.isFinite = false) (v : UnpackedFloat) :
    UnpackedFloat.sub .binary64 u v = .notANumber ∨
      ∃ s, UnpackedFloat.sub .binary64 u v = .infinity s := by
  cases u with
  | notANumber => exact Or.inl (by cases v <;> rfl)
  | infinity s =>
    cases v with
    | notANumber => exact Or.inl rfl
    | infinity t =>
      rcases sub_infinity (.infinity s) t with h | h
      · exact Or.inl h
      · exact Or.inr ⟨_, h⟩
    | zero t => exact Or.inr ⟨s, rfl⟩
    | finite t n k hn => exact Or.inr ⟨s, rfl⟩
  | zero s => cases hu
  | finite s m e hm => cases hu

theorem isFinite_of_sub {a b : Float} (h : (a - b).isFinite = true) : a.isFinite = true := by
  have hunpack : (a - b).toModel.unpack = unpack .binary64 (pack .binary64
      (UnpackedFloat.sub .binary64 a.toModel.unpack b.toModel.unpack)) := rfl
  change (a - b).toModel.unpack.isFinite = true at h
  by_contra ha
  rcases sub_of_not_finite (Bool.eq_false_of_not_eq_true ha) b.toModel.unpack with hsub | ⟨s, hsub⟩
  · rw [hunpack, hsub] at h
    cases h
  · have hpack : unpack .binary64 (pack .binary64 (.infinity s)) = .infinity s :=
      unpack_packedInfinity s
    rw [hunpack, hsub, hpack] at h
    cases h

theorem nearest_limit : nearest limit = limit := by
  have h := nearest_mul_two_zpow (n := 1) (e := 1024) (by norm_num) (by norm_num)
  rw [Int.cast_one, one_mul] at h
  exact h

theorem eq_nan_of_isNaN {a : Float} (ha : a.isNaN ≠ false) : a = Float.nan := by
  rw [Float.isNaN_eq_decide_eq_nan, Ne, decide_eq_false_iff_not, not_not] at ha
  exact ha

end PlaneFigures.Binary64
