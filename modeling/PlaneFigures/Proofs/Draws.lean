import PlaneFigures.Proofs.Binary64Arithmetic
import PlaneFigures.Sampling.Sampler

/-!
# Draws of figures

A sampler draws figures of a fixed kind from a fixed number of words, with all coordinates in its
extent. A coordinate is drawn from a range between two opposite numbers, and is drawn again if it
has been rounded up to the upper bound, which never happens. The upper bound is `m * 2 ^ k` for a
mantissa `m` of 53 bits. The greatest fraction is short of one by `2 ^ (-52)`, so that its product
with the width of the range is short of the width by two units of the last place of the bound at
least. The product is therefore rounded to `(m - 1) * 2 ^ (k + 1)` at most, and the sum with the
lower bound to `(m - 2) * 2 ^ k` at most, since both of these are binary64 numbers.
-/

namespace PlaneFigures

open Binary64
open Float.Model.UnpackedFloat (packComponents)

namespace Draw

def upper (word : UInt64) : ℕ := word.toNat / 2 ^ 12

theorem upper_lt (word : UInt64) : upper word < 2 ^ 52 := by
  have h := word.toNat_lt
  rw [upper]
  omega

theorem toBitVec_fractionBits (word : UInt64) :
    (word >>> 12 ||| 0x3ff0000000000000).toBitVec =
      packComponents .binary64 .positive 1023#11 (BitVec.ofNat 52 (2 ^ 52 + upper word)) := by
  have hlt := upper_lt word
  have hM : (BitVec.ofNat 52 (2 ^ 52 + upper word)).toNat = upper word := by
    rw [BitVec.toNat_ofNat]
    omega
  apply BitVec.eq_of_toNat_eq
  calc
    (word >>> 12 ||| 0x3ff0000000000000).toNat = 1023 <<< 52 ||| upper word := by
      rw [UInt64.toNat_or, UInt64.toNat_shiftRight, Nat.or_comm, Nat.shiftRight_eq_div_pow]
      rfl
    _ = ((0#1 ++ 1023#11) ++ BitVec.ofNat 52 (2 ^ 52 + upper word)).toNat := by
      rw [BitVec.toNat_append, hM]
      rfl

theorem value_fractionBits (word : UInt64) :
    (Float.ofBits (word >>> 12 ||| 0x3ff0000000000000)).isFinite = true ∧
      value (Float.ofBits (word >>> 12 ||| 0x3ff0000000000000)) =
        (2 ^ 52 + upper word : ℕ) * 2 ^ (-52 : ℤ) := by
  have hlt := upper_lt word
  obtain ⟨hnormal, hvalue⟩ := number_spec .positive (m := 2 ^ 52 + upper word) (e := -52)
    (by omega) (by decide) (Or.inl (by omega))
  have hunpack := unpack_packComponents_full .positive (m := 2 ^ 52 + upper word) (e := -52)
    (by omega) (by omega) (by decide) (by decide)
  have hrounds := rounds_ofBits ((congrArg _ (toBitVec_fractionBits word)).trans hunpack) hnormal
  rw [hvalue, signed, ← Int.cast_natCast (R := ℚ)] at hrounds
  exact hrounds.exact (abs_lt.2 ⟨by omega, by omega⟩) (by decide) (by decide)

theorem value_fraction (word : UInt64) :
    (fraction word).isFinite = true ∧ value (fraction word) = upper word * 2 ^ (-52 : ℤ) := by
  have hlt := upper_lt word
  obtain ⟨hfinite, hvalue⟩ := value_fractionBits word
  have hone : (1 : Float).isFinite = true ∧ value 1 = 1 := by decide +kernel
  have hrounds := rounds_sub hfinite hone.1
  have hdiff : value (Float.ofBits (word >>> 12 ||| 0x3ff0000000000000)) - value 1 =
      (upper word : ℤ) * 2 ^ (-52 : ℤ) := by
    rw [hvalue, hone.2, Nat.cast_add, add_mul, Int.cast_natCast]
    norm_num
  rw [hdiff] at hrounds
  exact hrounds.exact (abs_lt.2 ⟨by omega, by omega⟩) (by decide) (by decide)

theorem value_fraction_bounds (word : UInt64) :
    0 ≤ value (fraction word) ∧ value (fraction word) ≤ 1 - 2 ^ (-52 : ℤ) := by
  have h : ((upper word + 1 : ℕ) : ℚ) ≤ 2 ^ 52 := by exact_mod_cast upper_lt word
  push_cast at h
  rw [(value_fraction word).2]
  refine ⟨by positivity, ?_⟩
  norm_num
  linarith

section Mantissa

variable {m k : ℤ} (hm52 : 2 ^ 52 ≤ m) (hm53 : m < 2 ^ 53) (hk : -1074 ≤ k)

include hm52 hm53 hk

theorem nearest_scaled {q : ℚ} (hq : 0 ≤ q) (hq' : q ≤ 1 - 2 ^ (-52 : ℤ)) :
    0 ≤ nearest (q * (2 * (m * 2 ^ k))) ∧
      nearest (q * (2 * (m * 2 ^ k))) ≤ (m - 1) * 2 ^ (k + 1) := by
  have hpow : (0 : ℚ) < 2 ^ k := zpow_pos (by norm_num) k
  have hm : (1 : ℚ) ≤ 2 ^ (-52 : ℤ) * m := by
    have h : (2 : ℚ) ^ 52 ≤ m := by exact_mod_cast hm52
    norm_num
    linarith
  have hm0 : (0 : ℚ) ≤ m := by exact_mod_cast (by omega : (0 : ℤ) ≤ m)
  have hnearest := nearest_mul_two_zpow (n := m - 1) (e := k + 1) (abs_lt.2 ⟨by omega, by omega⟩)
    (by omega)
  push_cast at hnearest
  refine ⟨nearest_nonneg (by positivity), ?_⟩
  -- The exact product is short of the width by two units of the bound's last place, and rounding
  -- cannot take it past a binary64 number.
  rw [← hnearest]
  apply nearest_monotone
  calc
    q * (2 * (m * 2 ^ k)) ≤ (1 - 2 ^ (-52 : ℤ)) * (2 * (m * 2 ^ k)) :=
      mul_le_mul_of_nonneg_right hq' (by positivity)
    _ = (m - 2 ^ (-52 : ℤ) * m) * (2 ^ k * 2) := by ring
    _ ≤ (m - 1) * (2 ^ k * 2) := mul_le_mul_of_nonneg_right (by linarith) (by positivity)
    _ = (m - 1) * 2 ^ (k + 1) := by rw [zpow_add_one₀ (by norm_num)]

theorem nearest_placed {p : ℚ} (hp : 0 ≤ p) (hp' : p ≤ (m - 1) * 2 ^ (k + 1)) :
    -(m * 2 ^ k) ≤ nearest (p + -(m * 2 ^ k)) ∧
      nearest (p + -(m * 2 ^ k)) ≤ (m - 2) * 2 ^ k := by
  have hlow := nearest_mul_two_zpow (n := -m) (abs_lt.2 ⟨by omega, by omega⟩) hk
  have hhigh := nearest_mul_two_zpow (n := m - 2) (abs_lt.2 ⟨by omega, by omega⟩) hk
  push_cast at hlow hhigh
  rw [zpow_add_one₀ (by norm_num)] at hp'
  refine ⟨?_, ?_⟩
  · rw [← neg_mul, ← hlow]
    exact nearest_monotone (by linarith)
  · rw [← hhigh]
    exact nearest_monotone (by linarith)

end Mantissa

def HalfOpen (low high r : Float) : Prop := low ≤ r ∧ r < high

section Range

variable {e : Float} (hone : 1 ≤ e) (hwidth : (e - -e).isFinite = true)

include hone hwidth

theorem value_width : value (e - -e) = 2 * value e := by
  have he := isFinite_of_sub hwidth
  obtain ⟨m, k, hvalue, hm52, hm53, hk⟩ := exists_mantissa he hone
  obtain ⟨hneg, hvalueNeg⟩ := value_neg he
  have hrounds := rounds_sub he hneg
  have hdouble : value e - value (-e) = m * 2 ^ (k + 1) := by
    rw [hvalueNeg, hvalue, zpow_add_one₀ (by norm_num)]
    ring
  have hnearest := nearest_mul_two_zpow (n := m) (e := k + 1) (abs_lt.2 ⟨by omega, hm53⟩) (by omega)
  rw [hrounds.value_eq (hrounds.isFinite_iff.1 hwidth), hdouble, hnearest, hvalue,
    zpow_add_one₀ (by norm_num)]
  ring

/-- The place of a word in the range between two opposite numbers is below the upper one, so that
no word is ever rejected. -/
theorem exists_place (word : UInt64) :
    ∃ r, place? (-e) e word = some r ∧ HalfOpen (-e) e r := by
  have he := isFinite_of_sub hwidth
  obtain ⟨m, k, hvalue, hm52, hm53, hk⟩ := exists_mantissa he hone
  obtain ⟨hneg, hvalueNeg⟩ := value_neg he
  obtain ⟨hfraction0, hfraction1⟩ := value_fraction_bounds word
  have hpow : (0 : ℚ) < 2 ^ k := zpow_pos (by norm_num) k
  have hdouble := value_width hone hwidth
  have hlimit := abs_lt.1 (abs_value_lt hwidth)
  rw [hdouble, hvalue] at hlimit
  obtain ⟨hscaled0, hscaled1⟩ := nearest_scaled hm52 hm53 hk hfraction0 hfraction1
  obtain ⟨hplaced0, hplaced1⟩ := nearest_placed hm52 hm53 hk hscaled0 hscaled1
  have hmul := rounds_mul (value_fraction word).1 hwidth
  rw [hdouble, hvalue] at hmul
  rw [zpow_add_one₀ (by norm_num)] at hscaled1
  obtain ⟨hscaled, hvalueScaled⟩ := hmul.of_lt (abs_lt.2 ⟨by linarith, by linarith⟩)
  have hadd := rounds_add hscaled hneg
  rw [hvalueScaled, hvalueNeg, hvalue] at hadd
  obtain ⟨hplaced, hvaluePlaced⟩ := hadd.of_lt (abs_lt.2 ⟨by linarith, by linarith⟩)
  have hlt : fraction word * (e - -e) + -e < e := by
    rw [lt_iff_value (isNaN_of_isFinite hplaced) (isNaN_of_isFinite he), hvaluePlaced, hvalue]
    linarith
  have hle : -e ≤ fraction word * (e - -e) + -e := by
    rw [le_iff_value (isNaN_of_isFinite hneg) (isNaN_of_isFinite hplaced), hvaluePlaced, hvalueNeg,
      hvalue]
    exact hplaced0
  exact ⟨_, if_pos hlt, hle, hlt⟩

theorem isSome_place (word : UInt64) : (place? (-e) e word).isSome := by
  obtain ⟨r, hr, -⟩ := exists_place hone hwidth word
  rw [hr]
  rfl

end Range

end Draw

def Words.skip (w : Words) (n : ℕ) : Words := ⟨w.pending.drop n, w.used + n⟩

theorem Words.skip_skip (w : Words) (m n : ℕ) : (w.skip m).skip n = w.skip (m + n) := by
  rw [skip, skip, skip, List.drop_drop, Nat.add_assoc]

theorem Words.nextAccepted_of_total {β : Type} {accept : UInt64 → Option β}
    (zero : (accept 0).isSome) (htotal : ∀ word, (accept word).isSome) (w : Words) :
    ∃ word b, accept word = some b ∧ w.nextAccepted accept zero = (b, w.skip 1) := by
  obtain ⟨pending, used⟩ := w
  cases pending with
  | nil => exact ⟨0, _, (Option.some_get zero).symm, rfl⟩
  | cons word rest =>
    obtain ⟨b, hb⟩ := Option.isSome_iff_exists.1 (htotal word)
    refine ⟨word, b, hb, ?_⟩
    rw [nextAccepted, searchFrom, hb]
    rfl

namespace Draw

variable {β γ : Type}

/-- From every supply the draw takes the given number of words and returns a value with the
property. -/
def Yields (x : Draw β) (n : ℕ) (P : β → Prop) : Prop :=
  ∀ w, ∃ b, x.runFrom w = (.ok b, w.skip n) ∧ P b

def Fails (x : Draw β) : Prop := ∀ w, ∃ w', x.runFrom w = (.error .unbounded, w')

theorem runFrom_bind (x : Draw β) (k : β → Draw γ) (w : Words) :
    (x >>= k).runFrom w =
      match x.runFrom w with
      | (.ok b, w') => (k b).runFrom w'
      | (.error r, w') => (.error r, w') := by
  change ExceptT.bindCont k (x.runFrom w).1 (x.runFrom w).2 = _
  generalize x.runFrom w = o
  obtain ⟨o, w'⟩ := o
  cases o <;> rfl

theorem yields_pure {P : β → Prop} {b : β} (hb : P b) : Yields (pure b) 0 P :=
  fun _ => ⟨b, rfl, hb⟩

theorem Yields.bind {x : Draw β} {k : β → Draw γ} {m n : ℕ} {P : β → Prop} {Q : γ → Prop}
    (hx : x.Yields m P) (hk : ∀ b, P b → (k b).Yields n Q) : (x >>= k).Yields (m + n) Q := by
  intro w
  obtain ⟨b, hrun, hb⟩ := hx w
  obtain ⟨c, hrun', hc⟩ := hk b hb (w.skip m)
  exact ⟨c, by rw [runFrom_bind, hrun, ← Words.skip_skip]; exact hrun', hc⟩

theorem Fails.bind {x : Draw β} (hx : x.Fails) (k : β → Draw γ) : (x >>= k).Fails := by
  intro w
  obtain ⟨w', hrun⟩ := hx w
  exact ⟨w', by rw [runFrom_bind, hrun]⟩

theorem Yields.bind_fails {x : Draw β} {k : β → Draw γ} {n : ℕ} {P : β → Prop}
    (hx : x.Yields n P) (hk : ∀ b, (k b).Fails) : (x >>= k).Fails := by
  intro w
  obtain ⟨b, hrun, -⟩ := hx w
  obtain ⟨w', hrun'⟩ := hk b (w.skip n)
  exact ⟨w', by rw [runFrom_bind, hrun]; exact hrun'⟩

theorem yields_uniform {e : Float} (hone : 1 ≤ e) (hwidth : (e - -e).isFinite = true) :
    (uniform (-e) e).Yields 1 (HalfOpen (-e) e) := by
  have he := isFinite_of_sub hwidth
  have htotal := isSome_place hone hwidth
  have huniform : uniform (-e) e = accepted (place? (-e) e) (htotal 0) := by
    rw [uniform, if_pos ⟨(value_neg he).1, he, hwidth⟩, dif_pos (htotal 0)]
  intro w
  obtain ⟨word, r, hr, hnext⟩ := w.nextAccepted_of_total (htotal 0) htotal
  obtain ⟨r', hr', hmem⟩ := exists_place hone hwidth word
  rw [hr', Option.some_inj] at hr
  refine ⟨r, ?_, hr ▸ hmem⟩
  rw [huniform]
  change (Except.ok (w.nextAccepted _ _).1, (w.nextAccepted _ _).2) = _
  rw [hnext]

theorem fails_uniform {low high : Float} (hwidth : (high - low).isFinite = false) :
    (uniform low high).Fails := by
  have huniform : uniform low high = throw .unbounded := by
    rw [uniform, if_neg (fun h => by rw [hwidth] at h; cases h.2.2)]
  intro w
  exact ⟨w, by rw [huniform]; rfl⟩

end Draw

def Kind.words : Kind → ℕ
  | .empty => 0
  | .point => 2
  | .line => 2
  | .vertical => 1
  | .segment => 4

open Draw

def Point.InExtent (e : Float) (p : Point Float) : Prop :=
  HalfOpen (-e) e p.x ∧ HalfOpen (-e) e p.y

def Figure.InExtent (e : Float) : Figure Float → Prop
  | .empty => True
  | .point p => p.InExtent e
  | .line m b => HalfOpen (-4) 4 m ∧ HalfOpen (-e) e b
  | .vertical x => HalfOpen (-e) e x
  | .segment s => s.start.InExtent e ∧ s.stop.InExtent e

namespace Sampler

theorem extent_ofExtent (x : Float) :
    (ofExtent x).extent = if x.isNaN then 1 else max x.abs 1 := by
  by_cases hnan : x.isNaN = true
  · have hx : x = Float.nan := by
      rw [Float.isNaN_eq_decide_eq_nan] at hnan
      exact of_decide_eq_true hnan
    rw [if_pos hnan, hx]
    decide +kernel
  · have habs : x.abs.isNaN = false := isNaN_abs (Bool.eq_false_of_not_eq_true hnan)
    have hone : (1 : Float).isNaN = false := by decide +kernel
    have hmax : max x.abs 1 = if x.abs ≤ 1 then 1 else x.abs := rfl
    rw [if_neg hnan, hmax, ofExtent]
    split
    case isTrue hge =>
      split
      case isTrue hle =>
        -- Only the zeros are equal without being the same number.
        have hvalue : value x.abs = value 1 :=
          le_antisymm ((le_iff_value habs hone).1 hle) ((le_iff_value hone habs).1 hge)
        have hbeq : x.abs == 1 := beq_iff.2 ⟨habs, hone, hvalue⟩
        rcases (Float.beq_iff_ne_nan_and_eq.1 hbeq).2.2 with h | ⟨-, h⟩ | ⟨-, h⟩
        · exact h
        · exact absurd h (by decide +kernel)
        · exact absurd h (by decide +kernel)
      case isFalse => rfl
    case isFalse hlt =>
      have hle := Binary64.le_of_lt habs hone ((Binary64.not_le hone habs).1 hlt)
      rw [if_pos hle]

section Draws

variable {s : Sampler} (hwidth : (s.extent - -s.extent).isFinite = true)

include hwidth

theorem yields_coordinate : s.coordinate.Yields 1 (HalfOpen (-s.extent) s.extent) :=
  yields_uniform s.one_le_extent hwidth

theorem yields_point : s.point.Yields 2 (Point.InExtent s.extent) :=
  (yields_coordinate hwidth).bind fun _ hx =>
    (yields_coordinate hwidth).bind fun _ hy => yields_pure ⟨hx, hy⟩

end Draws

theorem yields_slope : slope.Yields 1 (HalfOpen (-4) 4) :=
  yields_uniform (by decide +kernel) (by decide +kernel)

theorem yields_figureOfKind {s : Sampler} {k : Kind}
    (h : k = .empty ∨ (s.extent - -s.extent).isFinite = true) :
    (s.figureOfKind k).Yields k.words fun f => f.kind = k ∧ f.InExtent s.extent := by
  cases k with
  | empty => exact yields_pure ⟨rfl, trivial⟩
  | point =>
    have hwidth := h.resolve_left nofun
    exact (yields_point hwidth).bind fun _ hp => yields_pure ⟨rfl, hp⟩
  | line =>
    have hwidth := h.resolve_left nofun
    exact yields_slope.bind fun _ hm =>
      (yields_coordinate hwidth).bind fun _ hb => yields_pure ⟨rfl, hm, hb⟩
  | vertical =>
    have hwidth := h.resolve_left nofun
    exact (yields_coordinate hwidth).bind fun _ hx => yields_pure ⟨rfl, hx⟩
  | segment =>
    have hwidth := h.resolve_left nofun
    exact (yields_point hwidth).bind fun _ hp =>
      (yields_point hwidth).bind fun _ hq => yields_pure ⟨rfl, hp, hq⟩

theorem fails_figureOfKind {s : Sampler} {k : Kind} (hk : k ≠ .empty)
    (hwidth : (s.extent - -s.extent).isFinite = false) : (s.figureOfKind k).Fails := by
  have hcoordinate : s.coordinate.Fails := fails_uniform hwidth
  have hpoint : s.point.Fails := hcoordinate.bind _
  cases k with
  | empty => exact absurd rfl hk
  | point => exact hpoint.bind _
  | line => exact yields_slope.bind_fails fun _ => hcoordinate.bind _
  | vertical => exact hcoordinate.bind _
  | segment => exact hpoint.bind _

/-- The figures that a sampler draws, for every wanted extent, kind and supply of words. Drawing
fails if the figure needs a coordinate and the range of the coordinates has no finite width. It
otherwise takes a fixed number of words, and the figure is of the kind and in the extent. No word is
rejected for a coordinate or for a slope. -/
theorem runFrom_figureOfKind (x : Float) (k : Kind) (w : Words) :
    let s := ofExtent x
    let e := s.extent
    e = (if x.isNaN then 1 else max x.abs 1) ∧
      (if k ≠ .empty ∧ (e - -e).isFinite = false then
        ∃ w', (s.figureOfKind k).runFrom w = (.error .unbounded, w')
      else
        ∃ f, (s.figureOfKind k).runFrom w = (.ok f, w.skip k.words) ∧ f.kind = k ∧ f.InExtent e) ∧
      ((e - -e).isFinite = true → ∀ word, (place? (-e) e word).isSome) ∧
      ∀ word, (place? (-4) 4 word).isSome := by
  intro s e
  refine ⟨extent_ofExtent x, ?_, isSome_place s.one_le_extent,
    isSome_place (by decide +kernel) (by decide +kernel)⟩
  split
  case isTrue h => exact fails_figureOfKind h.1 h.2 w
  case isFalse h =>
    rw [not_and_or, not_not, Bool.not_eq_false] at h
    exact yields_figureOfKind h w

/-- A segment in an extent that is no power of two, from the greatest word, two others, and a zero
past the end of the list. -/
theorem runFrom_figureOfKind_segment :
    let s := ofExtent (-5.3)
    s.extent = 5.3 ∧ (s.extent - -s.extent).isFinite = true ∧
      (∀ word, (place? (-5.3) 5.3 word).isSome) ∧
      ∃ f, (s.figureOfKind .segment).runFrom (.ofList [0xffffffffffffffff, 0, 7]) =
        (.ok f, ⟨[], 4⟩) ∧ f.kind = .segment ∧ f.InExtent 5.3 := by
  intro s
  have hextent : s.extent = 5.3 := by decide +kernel
  have hwidth : (s.extent - -s.extent).isFinite = true := by decide +kernel
  obtain ⟨-, hdraw, hplace, -⟩ :=
    runFrom_figureOfKind (-5.3) .segment (.ofList [0xffffffffffffffff, 0, 7])
  have hplace' := hplace hwidth
  rw [if_neg (fun h => by rw [hwidth] at h; cases h.2)] at hdraw
  rw [hextent] at hdraw hplace'
  exact ⟨hextent, hwidth, hplace', hdraw⟩

/-- The width of the range overflows if the extent is beyond half of the greatest number. -/
example : ((ofExtent 1e308).figureOfKind .line).runFrom (.ofList [7, 8]) =
    (.error .unbounded, ⟨[8], 1⟩) := by
  decide +kernel

end Sampler

end PlaneFigures
