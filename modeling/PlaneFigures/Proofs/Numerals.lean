import PlaneFigures.Decimal
import PlaneFigures.Proofs.Binary64Arithmetic
import PlaneFigures.Proofs.ShortestReading

/-!
# Numerals read back

The numeral of a binary64 number, read as a rational and rounded, is the number again. Numerals are
therefore different for different numbers: a numeral has a sign if and only if the number has one, so
that the two zeros are told apart as well, and the word for the value that is not a number is the
numeral of no other.
-/

namespace PlaneFigures

open Binary64 RoundingSpan
open Float.Model (UnpackedFloat)
open Float.Model.UnpackedFloat (Sign packComponents)

namespace FloatFields

def sign (f : FloatFields) : Sign := if f.negative then .negative else .positive

def size (f : FloatFields) : ℚ :=
  if f.exponent = 2047 then limit
  else mantissa f.exponent f.fraction * 2 ^ lastPlace f.exponent

theorem toNat_packComponents (s : Sign) (E : BitVec 11) (M : BitVec 52) :
    (packComponents .binary64 s E M).toNat =
      (s.toBitVec.toNat * 2048 + E.toNat) * fractionSize + M.toNat := by
  change (s.toBitVec ++ E ++ M).toNat = _
  rw [BitVec.toNat_append, ← Nat.shiftLeft_add_eq_or_of_lt M.isLt, BitVec.toNat_append,
    ← Nat.shiftLeft_add_eq_or_of_lt E.isLt, Nat.shiftLeft_eq, Nat.shiftLeft_eq]
  rfl

theorem ofFloat_eq {x : Float} {s : Sign} {E : BitVec 11} {M : BitVec 52}
    (h : x.toBits.toBitVec = packComponents .binary64 s E M) :
    ofFloat x = ⟨s.toBitVec.toNat == 1, E.toNat, M.toNat⟩ := by
  have hbits : x.toBits.toNat = (s.toBitVec.toNat * 2048 + E.toNat) * fractionSize + M.toNat := by
    rw [← toNat_packComponents, ← h]
    rfl
  have hE : E.toNat < 2048 := E.isLt
  have hM : M.toNat < fractionSize := M.isLt
  have hdiv : x.toBits.toNat / fractionSize = s.toBitVec.toNat * 2048 + E.toNat := by
    rw [hbits, Nat.mul_comm, Nat.mul_add_div (by decide), Nat.div_eq_of_lt hM, Nat.add_zero]
  have hmod : x.toBits.toNat % fractionSize = M.toNat := by
    rw [hbits, Nat.mul_comm, Nat.mul_add_mod, Nat.mod_eq_of_lt hM]
  simp only [ofFloat, hdiv, hmod, FloatFields.mk.injEq, and_true]
  refine ⟨?_, by omega⟩
  congr 1
  omega

theorem fraction_lt (x : Float) : (ofFloat x).fraction < fractionSize := Nat.mod_lt _ (by decide)

theorem unpack_eq (x : Float) :
    x.toModel.unpack =
      if (ofFloat x).exponent = 2047 then
        if (ofFloat x).fraction = 0 then .infinity (ofFloat x).sign else .notANumber
      else number (ofFloat x).sign (mantissa (ofFloat x).exponent (ofFloat x).fraction)
        (lastPlace (ofFloat x).exponent) := by
  obtain ⟨s, E, M, h⟩ := exists_eq_packComponents x.toBits.toBitVec
  have hunpack : x.toModel.unpack = UnpackedFloat.unpack .binary64 x.toBits.toBitVec := rfl
  have hsign : sign ⟨s.toBitVec.toNat == 1, E.toNat, M.toNat⟩ = s := by cases s <;> rfl
  have hE : E = -1#11 ↔ E.toNat = 2047 := ⟨fun h => h ▸ rfl, fun h => BitVec.eq_of_toNat_eq h⟩
  have hE0 : E = 0#11 ↔ E.toNat = 0 := ⟨fun h => h ▸ rfl, fun h => BitVec.eq_of_toNat_eq h⟩
  have hM0 : M = 0#52 ↔ M.toNat = 0 := ⟨fun h => h ▸ rfl, fun h => BitVec.eq_of_toNat_eq h⟩
  rw [hunpack, h, unpack_packComponents, ofFloat_eq h, hsign]
  simp only [hE, hE0, hM0, mantissa, lastPlace]
  split_ifs with hinf hzero hmin
  · rfl
  · rfl
  · rw [hmin]
    rfl
  · rw [max_eq_left (by omega)]
    rfl

theorem isNaN_iff (x : Float) :
    x.isNaN = true ↔ (ofFloat x).exponent = 2047 ∧ (ofFloat x).fraction ≠ 0 := by
  change x.toModel.unpack.isNaN = true ↔ _
  rw [unpack_eq]
  split_ifs with hinf hzero
  · exact iff_of_false (fun h => by cases h) fun h => h.2 hzero
  · exact iff_of_true rfl ⟨hinf, hzero⟩
  · refine iff_of_false (fun h => ?_) fun h => hinf h.1
    rw [number] at h
    split at h <;> cases h

theorem isNaN_eq_false_iff (x : Float) :
    x.isNaN = false ↔ ¬((ofFloat x).exponent = 2047 ∧ (ofFloat x).fraction ≠ 0) := by
  rw [← isNaN_iff, Bool.not_eq_true]

theorem value_eq {x : Float} (hx : x.isNaN = false) :
    value x = signed (ofFloat x).sign (ofFloat x).size := by
  have hnan := (isNaN_eq_false_iff x).1 hx
  rw [value, unpack_eq, size]
  split_ifs with hinf hzero
  · rfl
  · exact absurd ⟨hinf, hzero⟩ hnan
  · exact (number_spec _ (mantissa_lt _ (fraction_lt x)) (le_lastPlace _) (le_mantissa_or _ _)).2

end FloatFields

def readMagnitude (text : List Char) : ℚ :=
  if text = "inf".toList then limit else Decimal.reading text

def readNumeral : List Char → ℚ
  | '-' :: text => -readMagnitude text
  | text => readMagnitude text

def MagnitudeChar (c : Char) : Prop := c.isDigit = true ∨ c = '.' ∨ c ∈ "inf".toList

instance (c : Char) : Decidable (MagnitudeChar c) := inferInstanceAs (Decidable (_ ∨ _ ∨ _))

theorem readMagnitude_positional (d : Decimal) : readMagnitude d.positional = d.value := by
  have hinf : d.positional ≠ "inf".toList := by
    intro h
    have hi : 'i' ∈ d.positional := h ▸ List.mem_cons_self
    exact absurd (d.positional_chars _ hi) (by decide)
  rw [readMagnitude, if_neg hinf, Decimal.reading_positional]

namespace FloatFields

theorem magnitude_chars (f : FloatFields) : ∀ c ∈ f.magnitude.toList, MagnitudeChar c := by
  intro c hc
  rw [magnitude] at hc
  split at hc
  · exact .inr (.inr hc)
  · split at hc
    · rw [List.mem_singleton.1 hc]
      exact .inl rfl
    · rw [String.toList_ofList] at hc
      rcases Decimal.positional_chars _ c hc with h | h
      · exact .inl h
      · exact .inr (.inl h)

theorem nearest_readMagnitude {f : FloatFields} (hfraction : f.fraction < fractionSize) :
    nearest (readMagnitude f.magnitude.toList) = f.size := by
  rw [magnitude, size]
  split_ifs with hinf hzero
  · exact nearest_limit
  · have hread : readMagnitude "0".toList = 0 := by
      have h := readMagnitude_positional ⟨0, 0⟩
      rwa [Decimal.value, Nat.cast_zero, zero_mul] at h
    have hmantissa : mantissa f.exponent f.fraction = 0 := by rw [mantissa, if_pos hzero.1, hzero.2]
    rw [hread, hmantissa, Nat.cast_zero, zero_mul, nearest_zero]
  · have hpos : 0 < mantissa f.exponent f.fraction := by
      have hbits : fractionSize = 2 ^ 52 := rfl
      rw [mantissa]
      split <;> omega
    rw [String.toList_ofList, readMagnitude_positional]
    exact (contains_shortest_ofFields hpos).nearest_eq hpos hfraction

end FloatFields

theorem readNumeral_of_unsigned {text : List Char} (h : ∀ c ∈ text, MagnitudeChar c) :
    readNumeral text = readMagnitude text := by
  unfold readNumeral
  split
  · exact absurd (h '-' List.mem_cons_self) (by decide)
  · rfl

open FloatFields

theorem nearest_readNumeral {x : Float} (hx : x.isNaN = false) :
    nearest (readNumeral (numeral x).toList) = value x := by
  have hmagnitude := nearest_readMagnitude (fraction_lt x)
  rw [numeral, text, if_neg ((isNaN_eq_false_iff x).1 hx), value_eq hx, sign]
  split
  · rw [String.toList_append]
    change nearest (-readMagnitude (ofFloat x).magnitude.toList) = -_
    rw [nearest_neg, hmagnitude]
  · rw [readNumeral_of_unsigned (magnitude_chars _), hmagnitude]
    rfl

def NumeralChar (c : Char) : Prop := MagnitudeChar c ∨ c = '-' ∨ c ∈ "NaN".toList

instance (c : Char) : Decidable (NumeralChar c) := inferInstanceAs (Decidable (_ ∨ _ ∨ _))

theorem text_chars {f : FloatFields} {c : Char} (hc : c ∈ f.text.toList) :
    MagnitudeChar c ∨ c = '-' ∨ f.exponent = 2047 ∧ f.fraction ≠ 0 ∧ c ∈ "NaN".toList := by
  rw [text] at hc
  split_ifs at hc with hnan hnegative
  · exact .inr (.inr ⟨hnan.1, hnan.2, hc⟩)
  · rw [String.toList_append, List.mem_append] at hc
    rcases hc with hc | hc
    · exact .inr (.inl (List.mem_singleton.1 hc))
    · exact .inl (magnitude_chars f c hc)
  · exact .inl (magnitude_chars f c hc)

theorem numeral_chars (x : Float) : ∀ c ∈ (numeral x).toList, NumeralChar c := by
  intro c hc
  rcases text_chars hc with h | h | ⟨-, -, h⟩
  · exact .inl h
  · exact .inr (.inl h)
  · exact .inr (.inr h)

theorem numeral_eq_nan_iff {x : Float} : numeral x = "NaN" ↔ x.isNaN = true := by
  rw [isNaN_iff]
  constructor
  · intro h
    have hN : 'N' ∈ (ofFloat x).text.toList := by
      change 'N' ∈ (numeral x).toList
      rw [h]
      exact List.mem_cons_self
    rcases text_chars hN with h | h | ⟨hexponent, hfraction, -⟩
    · exact absurd h (by decide)
    · exact absurd h (by decide)
    · exact ⟨hexponent, hfraction⟩
  · intro h
    rw [numeral, text, if_pos h]

theorem numeral_injective : Function.Injective numeral := by
  intro x y h
  by_cases hx : x.isNaN = false
  · have hy : y.isNaN = false := by
      rw [← Bool.not_eq_true, ← numeral_eq_nan_iff, ← h, numeral_eq_nan_iff, hx]
      exact Bool.false_ne_true
    have hvalue : value x = value y := by
      rw [← nearest_readNumeral hx, ← nearest_readNumeral hy, h]
    obtain ⟨-, -, heq | ⟨rfl, rfl⟩ | ⟨rfl, rfl⟩⟩ :=
      Float.beq_iff_ne_nan_and_eq.1 (beq_iff.2 ⟨hx, hy, hvalue⟩)
    · exact heq
    · exact absurd h (by decide +kernel)
    · exact absurd h (by decide +kernel)
  · have hy : y.isNaN ≠ false := by
      rw [Ne, Bool.not_eq_false, ← numeral_eq_nan_iff, ← h, numeral_eq_nan_iff]
      exact Bool.eq_true_of_not_eq_false hx
    rw [eq_nan_of_isNaN hx, eq_nan_of_isNaN hy]

end PlaneFigures
