import PlaneFigures.Proofs.Binary64Order
import PlaneFigures.Proofs.Binary64Rounding

/-!
# Binary64 numbers as rationals

Every binary64 number but the one value that is not a number stands for a rational; the two
infinities stand for the first powers of two that are out of range. Unpacking gives numbers in the
form that rounding leaves, packing and unpacking keeps every such number that is in range, and turns
the others into infinities. The main statements are that the three comparisons of binary64 numbers
are the comparisons of these rationals. The order is therefore a total preorder on all numbers, in
which the two zeros are equal, and the greater and the lesser of two numbers do not depend on their
places but for that.
-/

namespace PlaneFigures.Binary64

open Float.Model (UnpackedFloat)
open Float.Model.UnpackedFloat (Sign pack packComponents packedInfinity
  packComponents_unpackSign_unpackExponent_unpackMantissa unpack unpackExponent_packComponents
  unpackMantissa_packComponents unpackSign_packComponents)

theorem toNat_implicit (M : BitVec 52) : (1#1 ++ M).toNat = 2 ^ 52 + M.toNat := by
  rw [BitVec.toNat_append, ← Nat.shiftLeft_add_eq_or_of_lt M.isLt]
  rfl

theorem unpack_packComponents (s : Sign) (E : BitVec 11) (M : BitVec 52) :
    unpack .binary64 (packComponents .binary64 s E M) =
      if E = -1#11 then if M = 0#52 then .infinity s else .notANumber
      else if E = 0#11 then number s M.toNat (-1074)
      else number s (2 ^ 52 + M.toNat) (E.toNat - 1075) := by
  simp only [unpack, unpackExponent_packComponents, unpackMantissa_packComponents,
    unpackSign_packComponents, Sign.ofBitVec_toBitVec]
  split_ifs with hinf hzero hmin hz
  · rfl
  · rfl
  · subst hz
    rfl
  · have hne : M.toNat ≠ 0 := by
      intro h
      exact hz (BitVec.eq_of_toNat_eq h)
    rw [number, dif_neg hne]
    subst hmin
    rfl
  · have hne : 2 ^ 52 + M.toNat ≠ 0 := by omega
    rw [number, dif_neg hne]
    simp only [toNat_implicit]
    rfl

theorem binade_le {n : ℕ} {e k : ℤ} (hn : 2 ^ 52 ≤ n) (hek : e < k) :
    (2 : ℚ) ^ 53 * 2 ^ e ≤ n * 2 ^ k := by
  have hn' : (2 : ℚ) ^ 52 ≤ n := by exact_mod_cast hn
  have hpow : (2 : ℚ) ^ (e + 1) ≤ 2 ^ k := zpow_le_zpow_right₀ (by norm_num) (by omega)
  calc
    (2 : ℚ) ^ 53 * 2 ^ e = (2 : ℚ) ^ 52 * 2 ^ (e + 1) := by
      rw [zpow_add₀ (by norm_num)]
      ring
    _ ≤ (n : ℚ) * 2 ^ k := mul_le_mul hn' hpow (by positivity) (by positivity)

theorem lt_binade {m : ℕ} (hm : m < 2 ^ 53) (e : ℤ) : (m : ℚ) * 2 ^ e < 2 ^ 53 * 2 ^ e :=
  mul_lt_mul_of_pos_right (by exact_mod_cast hm) (zpow_pos (by norm_num) e)

theorem compare_then_eq_lt_iff {s t : Sign} {m n : ℕ} {e k : ℤ} {hm : 0 < m} {hn : 0 < n}
    (hu : Normal (.finite s m e hm)) (hv : Normal (.finite t n k hn)) :
    (compare e k).then (compare m n) = .lt ↔ (m : ℚ) * 2 ^ e < n * 2 ^ k := by
  obtain ⟨hm53, he, hm52⟩ := hu
  obtain ⟨hn53, hk, hn52⟩ := hv
  -- A number with the greater exponent has all its 53 bits and is above the other's binade.
  rcases lt_trichotomy e k with hek | rfl | hek
  · rw [Int.compare_eq_lt.2 hek]
    have hlt := (lt_binade hm53 e).trans_le (binade_le (hn52.resolve_right (by omega)) hek)
    exact iff_of_true rfl hlt
  · have hcompare : compare e e = .eq := Int.compare_eq_eq.2 rfl
    have hpow : (0 : ℚ) < 2 ^ e := zpow_pos (by norm_num) e
    rw [hcompare, mul_lt_mul_iff_left₀ hpow, Nat.cast_lt]
    exact Nat.compare_eq_lt
  · rw [Int.compare_eq_gt.2 hek]
    have hlt := (lt_binade hn53 k).trans_le (binade_le (hm52.resolve_right (by omega)) hek)
    exact iff_of_false (fun h => by cases h) (not_lt.2 hlt.le)

/-- What a bit pattern can hold besides the value that is not a number: an infinity, or a number in
normal form that is below the first power of two out of range. -/
def Ranked : UnpackedFloat → Prop
  | .notANumber => False
  | .infinity _ => True
  | u => Normal u ∧ |valueOf u| < limit

theorem compare_finite_eq_lt_iff {s t : Sign} {m n : ℕ} {e k : ℤ} {hm : 0 < m} {hn : 0 < n}
    (hu : Normal (.finite s m e hm)) (hv : Normal (.finite t n k hn)) :
    UnpackedFloat.compare (.finite s m e hm) (.finite t n k hn) = some .lt ↔
      signed s (m * 2 ^ e) < signed t (n * 2 ^ k) := by
  have hmpos : (0 : ℚ) < m * 2 ^ e := by positivity
  have hnpos : (0 : ℚ) < n * 2 ^ k := by positivity
  cases s with
  | positive =>
    cases t with
    | positive => exact Option.some_inj.trans (compare_then_eq_lt_iff hu hv)
    | negative => exact iff_of_false (fun h => by cases h) (by simp only [signed]; linarith)
  | negative =>
    cases t with
    | positive => exact iff_of_true rfl (by simp only [signed]; linarith)
    | negative =>
      have hswap : ((compare e k).then (compare m n)).swap = (compare k e).then (compare n m) := by
        rw [Ordering.swap_then, Int.compare_swap, Nat.compare_swap]
      have hcompare : UnpackedFloat.compare (.finite .negative m e hm) (.finite .negative n k hn) =
          some ((compare k e).then (compare n m)) := congrArg some hswap
      rw [hcompare, Option.some_inj, compare_then_eq_lt_iff hv hu]
      exact neg_lt_neg_iff.symm

theorem infinity_compare_eq_lt_iff (s : Sign) {v : UnpackedFloat} (hv : Ranked v) :
    UnpackedFloat.compare (.infinity s) v = some .lt ↔ signed s limit < valueOf v := by
  have hlimit := limit_pos
  cases v with
  | notANumber => exact hv.elim
  | infinity t =>
    cases s <;> cases t <;> simp only [valueOf, signed]
    · exact iff_of_false (fun h => by cases h) (lt_irrefl _)
    · exact iff_of_true rfl (by linarith)
    · exact iff_of_false (fun h => by cases h) (by linarith)
    · exact iff_of_false (fun h => by cases h) (lt_irrefl _)
  | zero t =>
    cases s <;> simp only [valueOf, signed]
    · exact iff_of_true rfl (by linarith)
    · exact iff_of_false (fun h => by cases h) (by linarith)
  | finite t n k hn =>
    have hlt := abs_lt.1 hv.2
    cases s with
    | negative => exact iff_of_true rfl hlt.1
    | positive => exact iff_of_false (fun h => by cases h) (not_lt.2 hlt.2.le)

theorem zero_compare_eq_lt_iff (s : Sign) {v : UnpackedFloat} (hv : Ranked v) :
    UnpackedFloat.compare (.zero s) v = some .lt ↔ 0 < valueOf v := by
  have hlimit := limit_pos
  cases v with
  | notANumber => exact hv.elim
  | infinity t =>
    cases t <;> simp only [valueOf, signed]
    · exact iff_of_false (fun h => by cases h) (by linarith)
    · exact iff_of_true rfl (by linarith)
  | zero t => exact iff_of_false (fun h => by cases h) (lt_irrefl _)
  | finite t n k hn =>
    have hpos : (0 : ℚ) < n * 2 ^ k := by positivity
    cases t <;> simp only [valueOf, signed]
    · exact iff_of_false (fun h => by cases h) (by linarith)
    · exact iff_of_true rfl (by linarith)

theorem compare_eq_lt_iff {u v : UnpackedFloat} (hu : Ranked u) (hv : Ranked v) :
    u.compare v = some .lt ↔ valueOf u < valueOf v := by
  cases u with
  | notANumber => exact hu.elim
  | infinity s => exact infinity_compare_eq_lt_iff s hv
  | zero s => exact zero_compare_eq_lt_iff s hv
  | finite s m e hm =>
    cases v with
    | notANumber => exact hv.elim
    | infinity t =>
      have hlt := abs_lt.1 hu.2
      cases t with
      | negative =>
        refine iff_of_false (fun h => ?_) (not_lt.2 hlt.1.le)
        cases s <;> cases h
      | positive => exact iff_of_true (by cases s <;> rfl) hlt.2
    | zero t =>
      have hpos : (0 : ℚ) < m * 2 ^ e := by positivity
      cases s <;> simp only [valueOf, signed]
      · exact iff_of_true rfl (by linarith)
      · exact iff_of_false (fun h => by cases h) (by linarith)
    | finite t n k hn => exact compare_finite_eq_lt_iff hu.1 hv.1

theorem abs_signed (s : Sign) {q : ℚ} (hq : 0 ≤ q) : |signed s q| = q := by
  cases s with
  | positive => exact abs_of_nonneg hq
  | negative => rw [signed, abs_neg, abs_of_nonneg hq]

theorem limit_eq : limit = 2 ^ 53 * 2 ^ (971 : ℤ) := by
  rw [limit, ← zpow_natCast, ← zpow_add₀ (by norm_num)]
  rfl

theorem abs_lt_limit_iff {s : Sign} {m : ℕ} {e : ℤ} {hm : 0 < m} (h : Normal (.finite s m e hm)) :
    |valueOf (.finite s m e hm)| < limit ↔ e ≤ 971 := by
  obtain ⟨hlt, hle, hmin⟩ := h
  rw [valueOf, abs_signed s (by positivity), limit_eq]
  constructor
  · intro hv
    by_contra hexp
    exact absurd (binade_le (hmin.resolve_right (by omega)) (not_le.1 hexp)) (not_le.2 hv)
  · intro hexp
    have hpow : (2 : ℚ) ^ e ≤ 2 ^ (971 : ℤ) := zpow_le_zpow_right₀ (by norm_num) hexp
    exact (lt_binade hlt e).trans_le (mul_le_mul_of_nonneg_left hpow (by positivity))

theorem ranked_number (s : Sign) {m : ℕ} {e : ℤ} (hm : m < 2 ^ 53) (he : -1074 ≤ e)
    (hmin : 2 ^ 52 ≤ m ∨ e = -1074) (hexp : e ≤ 971) : Ranked (number s m e) := by
  have h := (number_spec s hm he hmin).1
  by_cases hz : m = 0
  · rw [number, dif_pos hz]
    exact ⟨trivial, by rw [valueOf, abs_zero]; exact limit_pos⟩
  · rw [number, dif_neg hz] at h ⊢
    exact ⟨h, (abs_lt_limit_iff h).2 hexp⟩

theorem exists_eq_packComponents (b : BitVec 64) :
    ∃ (s : Sign) (E : BitVec 11) (M : BitVec 52), b = packComponents .binary64 s E M :=
  ⟨_, _, _, (@packComponents_unpackSign_unpackExponent_unpackMantissa .binary64 b).symm⟩

theorem ranked_unpack (b : BitVec 64) :
    unpack .binary64 b = .notANumber ∨ Ranked (unpack .binary64 b) := by
  obtain ⟨s, E, M, rfl⟩ := exists_eq_packComponents b
  have hM : M.toNat < 2 ^ 52 := M.isLt
  rw [unpack_packComponents]
  split_ifs with hinf hzero hmin
  · exact Or.inr trivial
  · exact Or.inl rfl
  · exact Or.inr (ranked_number _ (by omega) (le_refl _) (Or.inr rfl) (by norm_num))
  · have hE : E.toNat < 2 ^ 11 := E.isLt
    have hE0 : E.toNat ≠ 0 := fun h => hmin (BitVec.eq_of_toNat_eq h)
    have hE1 : E.toNat ≠ 2047 := fun h => hinf (BitVec.eq_of_toNat_eq h)
    exact Or.inr (ranked_number _ (by omega) (by omega) (Or.inl (by omega)) (by omega))

theorem unpack_packedInfinity (s : Sign) :
    unpack .binary64 (packedInfinity .binary64 s) = .infinity s := by
  rw [packedInfinity, unpack_packComponents]
  rfl

theorem pack_finite (s : Sign) {m : ℕ} (e : ℤ) (hm : 0 < m) :
    pack .binary64 (.finite s m e hm) =
      if 2 ^ 11 ≤ (e + 1023 + 52).toNat + 1 then packedInfinity .binary64 s
      else if m.log2 + 1 = 53 then
        packComponents .binary64 s (BitVec.ofNat 11 (e + 1023 + 52).toNat) (BitVec.ofNat 52 m)
      else packComponents .binary64 s 0#11 (BitVec.ofNat 52 m) := rfl

theorem unpack_packComponents_full (s : Sign) {m : ℕ} {e : ℤ} (hm : 2 ^ 52 ≤ m) (hm' : m < 2 ^ 53)
    (he : -1074 ≤ e) (he' : e ≤ 971) :
    unpack .binary64 (packComponents .binary64 s (BitVec.ofNat 11 (e + 1023 + 52).toNat)
      (BitVec.ofNat 52 m)) = number s m e := by
  have hE : (BitVec.ofNat 11 (e + 1023 + 52).toNat).toNat = (e + 1023 + 52).toNat := by
    rw [BitVec.toNat_ofNat]
    exact Nat.mod_eq_of_lt (by omega)
  have hM : 2 ^ 52 + (BitVec.ofNat 52 m).toNat = m := by
    rw [BitVec.toNat_ofNat]
    omega
  have hinf : BitVec.ofNat 11 (e + 1023 + 52).toNat ≠ -1#11 := by
    intro h
    rw [h] at hE
    change 2047 = _ at hE
    omega
  have hzero : BitVec.ofNat 11 (e + 1023 + 52).toNat ≠ 0#11 := by
    intro h
    rw [h] at hE
    change 0 = _ at hE
    omega
  have hexp : (((e + 1023 + 52).toNat : ℕ) : ℤ) - 1075 = e := by omega
  rw [unpack_packComponents, if_neg hinf, if_neg hzero, hM, hE, hexp]

theorem unpack_packComponents_short (s : Sign) {m : ℕ} (hm : m < 2 ^ 52) :
    unpack .binary64 (packComponents .binary64 s 0#11 (BitVec.ofNat 52 m)) =
      number s m (-1074) := by
  have hM : (BitVec.ofNat 52 m).toNat = m := by
    rw [BitVec.toNat_ofNat]
    exact Nat.mod_eq_of_lt hm
  rw [unpack_packComponents, if_neg (by decide), if_pos rfl, hM]

theorem unpack_pack_finite {s : Sign} {m : ℕ} {e : ℤ} {hm : 0 < m} (h : Normal (.finite s m e hm)) :
    unpack .binary64 (pack .binary64 (.finite s m e hm)) =
      if e ≤ 971 then .finite s m e hm else .infinity s := by
  obtain ⟨hlt, hle, hmin⟩ := h
  have hlog : m.log2 + 1 = 53 ↔ 2 ^ 52 ≤ m := by
    rw [Nat.succ_inj, Nat.log2_eq_iff hm.ne']
    exact and_iff_left hlt
  have hnumber : number s m e = .finite s m e hm := dif_neg hm.ne'
  rw [pack_finite, ← hnumber]
  by_cases hexp : e ≤ 971
  · rw [if_neg (by omega), if_pos hexp]
    by_cases hfull : 2 ^ 52 ≤ m
    · rw [if_pos (hlog.2 hfull), unpack_packComponents_full s hfull hlt hle hexp]
    · rw [if_neg (mt hlog.1 hfull), unpack_packComponents_short s (not_le.1 hfull),
        hmin.resolve_left hfull]
  · rw [if_pos (by omega), if_neg hexp, unpack_packedInfinity]

theorem compare_eq_some {u v : UnpackedFloat} (hu : u ≠ .notANumber) (hv : v ≠ .notANumber) :
    ∃ o, u.compare v = some o := by
  cases u with
  | notANumber => exact absurd rfl hu
  | infinity s =>
    cases v with
    | notANumber => exact absurd rfl hv
    | _ => cases s <;> exact ⟨_, rfl⟩
  | zero s =>
    cases v with
    | notANumber => exact absurd rfl hv
    | zero t => exact ⟨_, rfl⟩
    | infinity t => cases t <;> exact ⟨_, rfl⟩
    | finite t n k hn => cases t <;> exact ⟨_, rfl⟩
  | finite s m e hm =>
    cases v with
    | notANumber => exact absurd rfl hv
    | zero t => cases s <;> exact ⟨_, rfl⟩
    | infinity t => cases s <;> cases t <;> exact ⟨_, rfl⟩
    | finite t n k hn => cases s <;> cases t <;> exact ⟨_, rfl⟩

theorem Ranked.ne_notANumber {u : UnpackedFloat} (hu : Ranked u) : u ≠ .notANumber := by
  rintro rfl
  exact hu

theorem compare_eq_cmp {u v : UnpackedFloat} (hu : Ranked u) (hv : Ranked v) :
    u.compare v = some (cmp (valueOf u) (valueOf v)) := by
  obtain ⟨o, ho⟩ := compare_eq_some hu.ne_notANumber hv.ne_notANumber
  have hlt := compare_eq_lt_iff hu hv
  have hgt := compare_eq_lt_iff hv hu
  rw [← compare_swap, ho] at hgt
  rw [ho] at hlt ⊢
  cases o with
  | lt => rw [(cmp_eq_lt_iff _ _).2 (hlt.1 rfl)]
  | eq =>
    have heq : valueOf u = valueOf v :=
      le_antisymm (not_lt.1 fun h => by cases hgt.2 h) (not_lt.1 fun h => by cases hlt.2 h)
    rw [(cmp_eq_eq_iff _ _).2 heq]
  | gt => rw [(cmp_eq_gt_iff _ _).2 (hgt.1 rfl)]

def value (a : Float) : ℚ := valueOf a.toModel.unpack

theorem ranked_of_isNaN {a : Float} (ha : a.isNaN = false) : Ranked a.toModel.unpack := by
  rcases ranked_unpack a.toModel.toBits.toBitVec with h | h
  · have hnan : a.isNaN = true := congrArg UnpackedFloat.isNaN h
    rw [hnan] at ha
    cases ha
  · exact h

theorem lt_iff_value {a b : Float} (ha : a.isNaN = false) (hb : b.isNaN = false) :
    a < b ↔ value a < value b := by
  rw [lt_iff_compare]
  exact compare_eq_lt_iff (ranked_of_isNaN ha) (ranked_of_isNaN hb)

theorem le_iff_value {a b : Float} (ha : a.isNaN = false) (hb : b.isNaN = false) :
    a ≤ b ↔ value a ≤ value b := by
  change decide (a.toModel ≤ b.toModel) = true ↔ _
  rw [decide_eq_true_iff]
  change (a.toModel.unpack.compare b.toModel.unpack).any (·.isLE) = true ↔ _
  rw [compare_eq_cmp (ranked_of_isNaN ha) (ranked_of_isNaN hb), ← not_lt, value, value,
    ← cmp_eq_gt_iff]
  cases cmp (valueOf a.toModel.unpack) (valueOf b.toModel.unpack) <;> decide

theorem beq_iff_value {a b : Float} (ha : a.isNaN = false) (hb : b.isNaN = false) :
    a == b ↔ value a = value b := by
  change (a.toModel.unpack.compare b.toModel.unpack == some .eq) = true ↔ _
  rw [compare_eq_cmp (ranked_of_isNaN ha) (ranked_of_isNaN hb), beq_iff_eq, Option.some_inj,
    cmp_eq_eq_iff]
  rfl

theorem isNaN_of_beq {a b : Float} (h : a == b) : a.isNaN = false ∧ b.isNaN = false := by
  change (a.toModel.unpack.compare b.toModel.unpack == some .eq) = true at h
  change a.toModel.unpack.isNaN = false ∧ b.toModel.unpack.isNaN = false
  cases ha : a.toModel.unpack with
  | notANumber =>
    rw [ha] at h
    cases b.toModel.unpack <;> cases h
  | _ =>
    cases hb : b.toModel.unpack with
    | notANumber =>
      rw [ha, hb] at h
      cases h
    | _ => exact ⟨rfl, rfl⟩

theorem beq_iff {a b : Float} :
    a == b ↔ a.isNaN = false ∧ b.isNaN = false ∧ value a = value b := by
  constructor
  · intro h
    obtain ⟨ha, hb⟩ := isNaN_of_beq h
    exact ⟨ha, hb, (beq_iff_value ha hb).1 h⟩
  · rintro ⟨ha, hb, h⟩
    exact (beq_iff_value ha hb).2 h

instance partialEquivBEq : PartialEquivBEq Float where
  symm h := by
    obtain ⟨ha, hb, h⟩ := beq_iff.1 h
    exact beq_iff.2 ⟨hb, ha, h.symm⟩
  trans h h' := by
    obtain ⟨ha, -, h⟩ := beq_iff.1 h
    obtain ⟨-, hc, h'⟩ := beq_iff.1 h'
    exact beq_iff.2 ⟨ha, hc, h.trans h'⟩

theorem beq_self {a : Float} (ha : a.isNaN = false) : a == a := beq_iff.2 ⟨ha, ha, rfl⟩

theorem lt_congr {a b c d : Float} (hac : a == c) (hbd : b == d) : a < b ↔ c < d := by
  obtain ⟨ha, hc, hac⟩ := beq_iff.1 hac
  obtain ⟨hb, hd, hbd⟩ := beq_iff.1 hbd
  rw [lt_iff_value ha hb, lt_iff_value hc hd, hac, hbd]

section Order

variable {a b c : Float}

protected theorem not_lt (ha : a.isNaN = false) (hb : b.isNaN = false) : ¬a < b ↔ b ≤ a := by
  rw [lt_iff_value ha hb, le_iff_value hb ha, not_lt]

protected theorem not_le (ha : a.isNaN = false) (hb : b.isNaN = false) : ¬a ≤ b ↔ b < a := by
  rw [lt_iff_value hb ha, le_iff_value ha hb, not_le]

protected theorem le_of_lt (ha : a.isNaN = false) (hb : b.isNaN = false) (h : a < b) : a ≤ b :=
  (Binary64.not_lt hb ha).1 (Std.Asymm.asymm _ _ h)

protected theorem le_trans (ha : a.isNaN = false) (hb : b.isNaN = false) (hc : c.isNaN = false)
    (hab : a ≤ b) (hbc : b ≤ c) : a ≤ c := by
  rw [le_iff_value ha hb] at hab
  rw [le_iff_value hb hc] at hbc
  exact (le_iff_value ha hc).2 (hab.trans hbc)

protected theorem max_eq (a b : Float) : max a b = if a ≤ b then b else a := rfl

protected theorem min_eq (a b : Float) : min a b = if a ≤ b then a else b := rfl

theorem max_spec (ha : a.isNaN = false) (hb : b.isNaN = false) :
    (max a b).isNaN = false ∧ value (max a b) = max (value a) (value b) := by
  rw [Binary64.max_eq, max_def, ← if_congr (le_iff_value ha hb) rfl rfl]
  split
  · exact ⟨hb, rfl⟩
  · exact ⟨ha, rfl⟩

theorem min_spec (ha : a.isNaN = false) (hb : b.isNaN = false) :
    (min a b).isNaN = false ∧ value (min a b) = min (value a) (value b) := by
  rw [Binary64.min_eq, min_def, ← if_congr (le_iff_value ha hb) rfl rfl]
  split
  · exact ⟨ha, rfl⟩
  · exact ⟨hb, rfl⟩

end Order

theorem max_congr {a b c d : Float} (hac : a == c) (hbd : b == d) : max a b == max c d := by
  obtain ⟨ha, hc, hac⟩ := beq_iff.1 hac
  obtain ⟨hb, hd, hbd⟩ := beq_iff.1 hbd
  obtain ⟨hab, hvalue⟩ := max_spec ha hb
  obtain ⟨hcd, hvalue'⟩ := max_spec hc hd
  exact beq_iff.2 ⟨hab, hcd, by rw [hvalue, hvalue', hac, hbd]⟩

theorem min_congr {a b c d : Float} (hac : a == c) (hbd : b == d) : min a b == min c d := by
  obtain ⟨ha, hc, hac⟩ := beq_iff.1 hac
  obtain ⟨hb, hd, hbd⟩ := beq_iff.1 hbd
  obtain ⟨hab, hvalue⟩ := min_spec ha hb
  obtain ⟨hcd, hvalue'⟩ := min_spec hc hd
  exact beq_iff.2 ⟨hab, hcd, by rw [hvalue, hvalue', hac, hbd]⟩

protected theorem max_comm {a b : Float} (ha : a.isNaN = false) (hb : b.isNaN = false) :
    max a b == max b a := by
  obtain ⟨hab, hvalue⟩ := max_spec ha hb
  obtain ⟨hba, hvalue'⟩ := max_spec hb ha
  exact beq_iff.2 ⟨hab, hba, by rw [hvalue, hvalue', max_comm]⟩

protected theorem min_comm {a b : Float} (ha : a.isNaN = false) (hb : b.isNaN = false) :
    min a b == min b a := by
  obtain ⟨hab, hvalue⟩ := min_spec ha hb
  obtain ⟨hba, hvalue'⟩ := min_spec hb ha
  exact beq_iff.2 ⟨hab, hba, by rw [hvalue, hvalue', min_comm]⟩

theorem Ranked.isFinite_iff {u : UnpackedFloat} (hu : Ranked u) :
    u.isFinite = true ↔ |valueOf u| < limit := by
  cases u with
  | notANumber => exact hu.elim
  | infinity s =>
    rw [valueOf, abs_signed s limit_pos.le]
    exact iff_of_false (fun h => by cases h) (lt_irrefl _)
  | zero s => exact iff_of_true rfl hu.2
  | finite s m e hm => exact iff_of_true rfl hu.2

theorem ranked_of_lt {u : UnpackedFloat} (hu : Normal u) (h : |valueOf u| < limit) : Ranked u := by
  cases u with
  | notANumber => exact hu
  | infinity s => trivial
  | zero s => exact ⟨hu, h⟩
  | finite s m e hm => exact ⟨hu, h⟩

theorem Ranked.normal {u : UnpackedFloat} (hu : Ranked u) (h : |valueOf u| < limit) : Normal u := by
  cases u with
  | notANumber => exact hu.elim
  | infinity s =>
    rw [valueOf, abs_signed s limit_pos.le] at h
    exact absurd h (lt_irrefl _)
  | zero s => trivial
  | finite s m e hm => exact hu.1

theorem isNaN_of_isFinite {a : Float} (ha : a.isFinite = true) : a.isNaN = false := by
  change a.toModel.unpack.isFinite = true at ha
  change a.toModel.unpack.isNaN = false
  cases h : a.toModel.unpack with
  | notANumber =>
    rw [h] at ha
    cases ha
  | _ => rfl

theorem isFinite_iff_value {a : Float} (ha : a.isNaN = false) :
    a.isFinite = true ↔ |value a| < limit := (ranked_of_isNaN ha).isFinite_iff

theorem abs_value_lt {a : Float} (ha : a.isFinite = true) : |value a| < limit :=
  (isFinite_iff_value (isNaN_of_isFinite ha)).1 ha

theorem normal_of_isFinite {a : Float} (ha : a.isFinite = true) : Normal a.toModel.unpack :=
  (ranked_of_isNaN (isNaN_of_isFinite ha)).normal (abs_value_lt ha)

end PlaneFigures.Binary64
