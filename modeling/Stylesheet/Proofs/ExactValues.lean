import Mathlib.Algebra.Order.Field.Power
import Mathlib.Tactic.Linarith
import Mathlib.Tactic.NormNum
import Mathlib.Tactic.Ring
import Stylesheet.Color.Basic
import Stylesheet.Dyadic.Rounding

/-!
# The exact values of floats

A finite float is a rational number, and what is done with floats can be said of these numbers.

* **The bits are read as the format reads them** (`Dyadic.ofFloat?_eq_ofUnpacked?`).
* **Floats are compared as their values are** (`lt_iff_exactValue?_lt`). Of two numbers in the form in which
  the format holds them, the one with the larger exponent is larger, since a mantissa that is not filled
  goes with the smallest exponent only (`Dyadic.magnitude_lt_of_exponent_lt`).
* **Whole numbers** are the values that are integers (`wholeNumber?_eq_some_iff`).
* A number that is clamped is between the bounds or is NaN (`clamp_within`); clamping it again changes
  nothing (`clamp_clamp`).
* **Rounding to a byte** gives the nearest one (`nearestByte_roundsTo`), with a half rounded up and NaN
  taken to zero.
-/

namespace Stylesheet

open Float.Model (UnpackedFloat Format)
open Float.Model.UnpackedFloat (Sign unpackMantissa unpackExponent unpackSign)

namespace Dyadic

/-! ## The format's own reading

The library has a model of floats, in which the 64 bits are unpacked into a sign, a mantissa and an
exponent. `Dyadic.ofFloat?` takes the bits apart by dividing; here the two are compared part by part. -/

/-- Whether a sign is the minus sign. -/
def isMinus : Sign → Bool
  | .negative => true
  | .positive => false

/-- The number that the format reads from the bits of a float. -/
def ofUnpacked? : UnpackedFloat → Option Dyadic
  | .infinity _ => none
  | .notANumber => none
  | .zero sign => some ⟨isMinus sign, 0, -1074⟩
  | .finite sign mantissa exponent _ => some ⟨isMinus sign, mantissa, exponent⟩

/-- Zero is read with its sign, and with the exponent of the smallest numbers. -/
lemma ofUnpacked?_zero (sign : Sign) : ofUnpacked? (.zero sign) = some ⟨isMinus sign, 0, -1074⟩ := rfl

/-- A finite number is read part by part. -/
lemma ofUnpacked?_finite (sign : Sign) {mantissa : Nat} (exponent : Int) (h : 0 < mantissa) :
    ofUnpacked? (.finite sign mantissa exponent h) = some ⟨isMinus sign, mantissa, exponent⟩ := rfl

/-- The mantissa is the lowest 52 bits. -/
lemma toNat_unpackMantissa (bits : BitVec 64) :
    (@unpackMantissa Format.binary64 bits).toNat = bits.toNat % 2 ^ 52 := by
  simp [unpackMantissa]

/-- The exponent is the eleven bits above the mantissa. -/
lemma toNat_unpackExponent (bits : BitVec 64) :
    (@unpackExponent Format.binary64 bits).toNat = bits.toNat / 2 ^ 52 % 2 ^ 11 := by
  simp [unpackExponent, Nat.shiftRight_eq_div_pow]

/-- The sign is the highest bit. -/
lemma toNat_unpackSign (bits : BitVec 64) :
    (@unpackSign Format.binary64 bits).toNat = bits.toNat / 2 ^ 63 := by
  have hlt := bits.isLt
  delta unpackSign
  simp only [BitVec.toNat_cast, BitVec.extractLsb_toNat, Nat.shiftRight_eq_div_pow]
  omega

/-- A set sign bit means a negative number. -/
lemma isMinus_unpackSign (bits : BitVec 64) :
    isMinus (Sign.ofBitVec (@unpackSign Format.binary64 bits)) = (bits.toNat / 2 ^ 63 == 1) := by
  rw [← toNat_unpackSign]
  generalize @unpackSign Format.binary64 bits = sign
  revert sign
  decide

/-- A full mantissa has one bit more than are stored. -/
lemma toNat_append_one (stored : BitVec 52) : (1#1 ++ stored).toNat = stored.toNat + 2 ^ 52 := by
  rw [BitVec.toNat_append, ← Nat.shiftLeft_add_eq_or_of_lt stored.isLt, Nat.add_comm]
  rfl

/-- What a number is read as, by its bits: nothing if it is infinite or no number, otherwise a mantissa
that has a leading one unless the exponent bits are all zero. -/
lemma ofFloat?_eq_ite (x : Float) :
    ofFloat? x =
      if x.toBits.toNat / 2 ^ 52 % 2 ^ 11 = 2047 then none
      else if x.toBits.toNat / 2 ^ 52 % 2 ^ 11 = 0 then
        some ⟨x.toBits.toNat / 2 ^ 63 == 1, x.toBits.toNat % 2 ^ 52, -1074⟩
      else
        some ⟨x.toBits.toNat / 2 ^ 63 == 1, x.toBits.toNat % 2 ^ 52 + 2 ^ 52,
          ((x.toBits.toNat / 2 ^ 52 % 2 ^ 11 : Nat) : Int) - 1075⟩ := rfl

/-- **The bits are read as the format reads them.** The three cases of the exponent bits, all ones, all
zeros and anything between, are those in which the format unpacks a number. -/
theorem ofFloat?_eq_ofUnpacked? (x : Float) : ofFloat? x = ofUnpacked? x.toModel.unpack := by
  have hbits : x.toBits.toNat = x.toModel.toBits.toBitVec.toNat := rfl
  rw [ofFloat?_eq_ite, hbits, Float.Model.unpack]
  delta UnpackedFloat.unpack
  generalize x.toModel.toBits.toBitVec = bits
  have hones : @unpackExponent Format.binary64 bits = -1#_ ↔ bits.toNat / 2 ^ 52 % 2 ^ 11 = 2047 := by
    rw [← toNat_unpackExponent, ← BitVec.toNat_inj]
    rfl
  have hzeros : @unpackExponent Format.binary64 bits = 0#_ ↔ bits.toNat / 2 ^ 52 % 2 ^ 11 = 0 := by
    rw [← toNat_unpackExponent, ← BitVec.toNat_inj]
    rfl
  by_cases hexponent : bits.toNat / 2 ^ 52 % 2 ^ 11 = 2047
  · rw [if_pos hexponent, if_pos (hones.mpr hexponent)]
    split <;> rfl
  rw [if_neg hexponent, if_neg (mt hones.mp hexponent)]
  by_cases hexponent : bits.toNat / 2 ^ 52 % 2 ^ 11 = 0
  · rw [if_pos hexponent, if_pos (hzeros.mpr hexponent)]
    by_cases hmantissa : @unpackMantissa Format.binary64 bits = 0#_
    · rw [dif_pos hmantissa, ofUnpacked?_zero, isMinus_unpackSign, ← toNat_unpackMantissa, hmantissa]
      rfl
    · rw [dif_neg hmantissa, ofUnpacked?_finite, isMinus_unpackSign, toNat_unpackExponent, toNat_unpackMantissa,
        hexponent]
      rfl
  · rw [if_neg hexponent, if_neg (mt hzeros.mp hexponent), ofUnpacked?_finite, isMinus_unpackSign,
      toNat_unpackExponent, toNat_append_one, toNat_unpackMantissa]
    rfl

/-- Floats are compared as the format compares what it reads. -/
lemma lt_iff_compare (x y : Float) :
    x < y ↔ x.toModel.unpack.compare y.toModel.unpack = some .lt := by
  show decide (x.toModel.unpack.lt y.toModel.unpack = true) = true ↔ _
  rw [decide_eq_true_iff, UnpackedFloat.lt, beq_iff_eq]

/-! ## Values

By its value a finite float becomes a rational number, and comparing floats becomes comparing these. What
is not finite stays outside: infinities are above and below all values, and no comparison holds of NaN. -/

/-- The number without its sign. -/
def magnitude (d : Dyadic) : ℚ :=
  d.mantissa * 2 ^ d.exponent

/-- The number. -/
def value (d : Dyadic) : ℚ :=
  if d.negative then -d.magnitude else d.magnitude

/-- The form in which the format holds a number: the mantissa is filled unless the exponent can go no
lower. -/
structure Canonical (d : Dyadic) : Prop where
  /-- The mantissa has 53 bits. -/
  mantissa_lt : d.mantissa < 2 ^ 53
  /-- The smallest exponent. -/
  le_exponent : -1074 ≤ d.exponent
  /-- With any other exponent all 53 bits are in use. -/
  le_mantissa : -1074 < d.exponent → 2 ^ 52 ≤ d.mantissa

/-- Every number that is read at all is read in canonical form. -/
lemma canonical_of_ofFloat? {x : Float} {d : Dyadic} (h : ofFloat? x = some d) : d.Canonical := by
  rw [ofFloat?_eq_ite] at h
  split at h
  · cases h
  · split at h
    · cases h
      constructor <;> dsimp only <;> omega
    · cases h
      constructor <;> dsimp only <;> omega

variable {d d' : Dyadic}

/-- Magnitudes are not negative. -/
lemma magnitude_nonneg (d : Dyadic) : 0 ≤ d.magnitude := by
  unfold magnitude
  positivity

/-- A mantissa that is not zero makes a positive magnitude. -/
lemma magnitude_pos (h : 0 < d.mantissa) : 0 < d.magnitude := by
  unfold magnitude
  positivity

/-- A mantissa of zero makes the magnitude zero. -/
@[simp] lemma magnitude_mk_zero (negative : Bool) (exponent : Int) :
    (Dyadic.mk negative 0 exponent).magnitude = 0 := by
  simp [magnitude]

/-- The magnitude as a fraction. -/
lemma magnitude_eq_div (d : Dyadic) : d.magnitude = d.numerator / 2 ^ d.places := by
  unfold magnitude numerator places
  rw [Nat.pow_eq]
  rcases le_total 0 d.exponent with h | h
  · obtain ⟨n, hn⟩ := Int.eq_ofNat_of_zero_le h
    simp [hn]
  · obtain ⟨n, hn⟩ := Int.exists_eq_neg_ofNat h
    simp [hn, zpow_neg, div_eq_mul_inv]

/-- The larger exponent decides: its mantissa is filled, and the other one has no more bits. -/
lemma magnitude_lt_of_exponent_lt (hd : d.Canonical) (hd' : d'.Canonical)
    (h : d.exponent < d'.exponent) : d.magnitude < d'.magnitude := by
  have hfilled : (2 : ℚ) ^ (52 : ℕ) ≤ d'.mantissa := by
    have hlow := hd.le_exponent
    exact_mod_cast hd'.le_mantissa (by omega)
  have hbits : (d.mantissa : ℚ) < 2 ^ (53 : ℕ) := by exact_mod_cast hd.mantissa_lt
  calc d.magnitude < 2 ^ (53 : ℕ) * 2 ^ d.exponent := by
        unfold magnitude
        gcongr
    _ = 2 ^ (52 : ℕ) * 2 ^ (d.exponent + 1) := by
        rw [zpow_add_one₀ two_ne_zero]
        ring
    _ ≤ 2 ^ (52 : ℕ) * 2 ^ d'.exponent := by
        gcongr
        · exact one_le_two
        · omega
    _ ≤ d'.magnitude := by
        unfold magnitude
        gcongr

/-- Magnitudes in canonical form are ordered by the exponent first, and then by the mantissa. A larger
exponent decides alone, since a canonical mantissa that is not filled goes with the smallest exponent
only. -/
lemma magnitude_lt_iff (hd : d.Canonical) (hd' : d'.Canonical) :
    d.magnitude < d'.magnitude ↔
      d.exponent < d'.exponent ∨ d.exponent = d'.exponent ∧ d.mantissa < d'.mantissa := by
  rcases lt_trichotomy d.exponent d'.exponent with h | h | h
  · simp [magnitude_lt_of_exponent_lt hd hd' h, h]
  · have hpos : (0 : ℚ) < 2 ^ d'.exponent := by positivity
    simp [magnitude, h, hpos]
  · have hgt := magnitude_lt_of_exponent_lt hd' hd h
    simp [h.ne', not_lt.mpr h.le, not_lt.mpr hgt.le]

/-- The same, as the comparison that is computed. -/
lemma compare_eq_lt_iff (hd : d.Canonical) (hd' : d'.Canonical) :
    (compare d.exponent d'.exponent).then (compare d.mantissa d'.mantissa) = .lt ↔
      d.magnitude < d'.magnitude := by
  rw [magnitude_lt_iff hd hd', Ordering.then_eq_lt]
  simp [compare_lt_iff_lt]

/-- **Finite floats are compared as their values are.** Zeros are equal whatever their signs are, numbers
of different signs are compared by their signs, and two of one sign by exponent and mantissa, which is the
order of the magnitudes because both are canonical; of negative numbers the order is turned round. -/
theorem lt_iff_value_lt {x y : Float} (hx : ofFloat? x = some d) (hy : ofFloat? y = some d') :
    x < y ↔ d.value < d'.value := by
  have hcompare := compare_eq_lt_iff (canonical_of_ofFloat? hx) (canonical_of_ofFloat? hy)
  have hcompare' := compare_eq_lt_iff (canonical_of_ofFloat? hy) (canonical_of_ofFloat? hx)
  rw [ofFloat?_eq_ofUnpacked?] at hx hy
  rw [lt_iff_compare]
  generalize x.toModel.unpack = u at hx ⊢
  generalize y.toModel.unpack = u' at hy ⊢
  -- zeros, positive and negative numbers in turn; only two of one sign are compared by their parts
  cases u with
  | infinity | notANumber => cases hx
  | zero s =>
    cases hx
    cases u' with
    | infinity | notANumber => cases hy
    | zero s' =>
      cases hy
      show some Ordering.eq = some .lt ↔ _
      simp [value]
    | finite s' m' e' hm' =>
      cases hy
      have hpos' : 0 < magnitude ⟨isMinus s', m', e'⟩ := magnitude_pos hm'
      cases s' with
      | negative =>
        show some Ordering.gt = some .lt ↔ _
        simpa [value, isMinus] using hpos'.le
      | positive =>
        show some Ordering.lt = some .lt ↔ _
        simpa [value, isMinus] using hpos'
  | finite s m e hm =>
    cases hx
    have hpos : 0 < magnitude ⟨isMinus s, m, e⟩ := magnitude_pos hm
    cases u' with
    | infinity | notANumber => cases hy
    | zero s' =>
      cases hy
      cases s with
      | negative =>
        show some Ordering.lt = some .lt ↔ _
        simpa [value, isMinus] using hpos
      | positive =>
        show some Ordering.gt = some .lt ↔ _
        simpa [value, isMinus] using hpos.le
    | finite s' m' e' hm' =>
      cases hy
      have hpos' : 0 < magnitude ⟨isMinus s', m', e'⟩ := magnitude_pos hm'
      cases s with
      | negative =>
        cases s' with
        | negative =>
          show some ((compare e e').then (compare m m')).swap = some .lt ↔ _
          simpa [value, isMinus, Ordering.swap_then, Int.compare_swap, Nat.compare_swap] using hcompare'
        | positive =>
          show some Ordering.lt = some .lt ↔ _
          simp only [value, isMinus, if_true, Bool.false_eq_true, if_false, true_iff]
          exact (neg_lt_zero.mpr hpos).trans hpos'
      | positive =>
        cases s' with
        | negative =>
          show some Ordering.gt = some .lt ↔ _
          simp only [value, isMinus, if_true, Bool.false_eq_true, if_false, Option.some.injEq,
            reduceCtorEq, false_iff, not_lt]
          exact (neg_lt_zero.mpr hpos').le.trans hpos.le
        | positive =>
          show some ((compare e e').then (compare m m')) = some .lt ↔ _
          simpa [value, isMinus] using hcompare

end Dyadic

/-- The exact value of a float that is finite. -/
def exactValue? (x : Float) : Option ℚ :=
  (Dyadic.ofFloat? x).map Dyadic.value

/-- **Floats are compared as their values are.** -/
theorem lt_iff_exactValue?_lt {x y : Float} {v w : ℚ} (hx : exactValue? x = some v)
    (hy : exactValue? y = some w) : x < y ↔ v < w := by
  obtain ⟨d, hd, rfl⟩ := Option.map_eq_some_iff.mp hx
  obtain ⟨d', hd', rfl⟩ := Option.map_eq_some_iff.mp hy
  exact Dyadic.lt_iff_value_lt hd hd'

/-- A float is NaN, or it has a value, or it is above or below all values. -/
lemma isNaN_or_exactValue? (x : Float) :
    x.isNaN = true ∨ (∃ v, exactValue? x = some v) ∨
      (∀ y w, exactValue? y = some w → y < x) ∨ ∀ y w, exactValue? y = some w → x < y := by
  simp only [exactValue?, Dyadic.ofFloat?_eq_ofUnpacked?, Dyadic.lt_iff_compare]
  show x.toModel.unpack.isNaN = true ∨ _
  cases x.toModel.unpack with
  | notANumber => exact .inl rfl
  | zero s => exact .inr (.inl ⟨_, rfl⟩)
  | finite s m e hm => exact .inr (.inl ⟨_, rfl⟩)
  | infinity s =>
    have hbetween : ∀ (u : UnpackedFloat) (w : ℚ),
        (Dyadic.ofUnpacked? u).map Dyadic.value = some w →
        u.compare (.infinity .positive) = some .lt ∧
          (UnpackedFloat.infinity .negative).compare u = some .lt := by
      intro u w hu
      cases u with
      | notANumber | infinity => cases hu
      | zero | finite => exact ⟨rfl, rfl⟩
    cases s with
    | positive => exact .inr (.inr (.inl fun y w hy => (hbetween _ w hy).1))
    | negative => exact .inr (.inr (.inr fun y w hy => (hbetween _ w hy).2))

/-- NaN is neither below nor above anything, and has no value. -/
lemma not_lt_of_isNaN {x : Float} (h : x.isNaN = true) (y : Float) :
    ¬y < x ∧ Dyadic.ofFloat? x = none := by
  rw [Dyadic.lt_iff_compare, Dyadic.ofFloat?_eq_ofUnpacked?]
  change x.toModel.unpack.isNaN = true at h
  generalize x.toModel.unpack = u at h ⊢
  cases u with
  | notANumber =>
    have hcompare : y.toModel.unpack.compare .notANumber = none := by cases y.toModel.unpack <;> rfl
    rw [hcompare]
    exact ⟨Option.some_ne_none _ ∘ Eq.symm, rfl⟩
  | _ => cases h

/-! ## Whole numbers -/

/-- The integer that is read is the value, and every whole value is read. -/
lemma Dyadic.toInt?_eq_some_iff {d : Dyadic} {n : Int} : d.toInt? = some n ↔ d.value = n := by
  have hmagnitude := d.magnitude_eq_div
  unfold toInt?
  rw [Nat.pow_eq]
  split
  · next hwhole =>
    obtain ⟨whole, hnumerator⟩ := Nat.dvd_of_mod_eq_zero hwhole
    have hpos : 0 < 2 ^ d.places := by positivity
    have hquotient : d.magnitude = whole := by
      rw [hmagnitude, hnumerator]
      push_cast
      exact mul_div_cancel_left₀ _ (by positivity)
    dsimp only
    rw [Option.some_inj, hnumerator, Nat.mul_div_cancel_left whole hpos, value, hquotient]
    split <;> norm_cast
  · next hwhole =>
    refine iff_of_false nofun fun hvalue => hwhole ?_
    -- a whole magnitude is a whole number of scales
    have habs : d.magnitude = n.natAbs := by
      rw [Nat.cast_natAbs, Int.cast_abs, ← hvalue, value]
      split
      · rw [abs_neg, abs_of_nonneg d.magnitude_nonneg]
      · rw [abs_of_nonneg d.magnitude_nonneg]
    rw [hmagnitude, div_eq_iff (by positivity)] at habs
    have hnumerator : d.numerator = n.natAbs * 2 ^ d.places := by exact_mod_cast habs
    rw [hnumerator, Nat.mul_mod_left]

/-- **A float denotes an integer exactly if that is its value.** -/
theorem wholeNumber?_eq_some_iff {x : Float} {n : Int} :
    wholeNumber? x = some n ↔ exactValue? x = some (n : ℚ) := by
  simp only [wholeNumber?, exactValue?, Option.bind_eq_some_iff, Option.map_eq_some_iff,
    Dyadic.toInt?_eq_some_iff]

/-! ## Clamping

The bounds are floats with exact values. The number itself may be infinite, and then it is moved to a
bound, or NaN, and then it stays. -/

section clamp

variable {low high x : Float} {l h v : ℚ} (hlow : exactValue? low = some l)
  (hhigh : exactValue? high = some h)

include hlow hhigh

/-- What is between the bounds stays. -/
lemma clamp_eq_self (hx : exactValue? x = some v) (hl : l ≤ v) (hh : v ≤ h) :
    clamp low high x = x := by
  have hnotBelow : ¬x < low := by
    rw [lt_iff_exactValue?_lt hx hlow]
    exact not_lt.mpr hl
  have hnotAbove : ¬high < x := by
    rw [lt_iff_exactValue?_lt hhigh hx]
    exact not_lt.mpr hh
  rw [clamp, if_neg hnotBelow, if_neg hnotAbove]

/-- A clamped number is between the bounds or is NaN. -/
lemma clamp_within (hle : l ≤ h) (x : Float) :
    (clamp low high x).isNaN = true ∨
      ∃ v, exactValue? (clamp low high x) = some v ∧ l ≤ v ∧ v ≤ h := by
  unfold clamp
  split
  · exact .inr ⟨l, hlow, le_refl l, hle⟩
  · next hnotBelow =>
    split
    · exact .inr ⟨h, hhigh, hle, le_refl h⟩
    · next hnotAbove =>
      rcases isNaN_or_exactValue? x with hnan | ⟨v, hv⟩ | habove | hbelow
      · exact .inl hnan
      · rw [lt_iff_exactValue?_lt hv hlow, not_lt] at hnotBelow
        rw [lt_iff_exactValue?_lt hhigh hv, not_lt] at hnotAbove
        exact .inr ⟨v, hv, hnotBelow, hnotAbove⟩
      · exact absurd (habove high h hhigh) hnotAbove
      · exact absurd (hbelow low l hlow) hnotBelow

/-- Clamping once is enough, also for NaN. -/
lemma clamp_clamp (hle : l ≤ h) (x : Float) :
    clamp low high (clamp low high x) = clamp low high x := by
  by_cases hbelow : x < low
  · have hx : clamp low high x = low := if_pos hbelow
    rw [hx, clamp_eq_self hlow hhigh hlow (le_refl l) hle]
  · by_cases habove : high < x
    · have hx : clamp low high x = high := by rw [clamp, if_neg hbelow, if_pos habove]
      rw [hx, clamp_eq_self hlow hhigh hhigh hle (le_refl h)]
    · have hx : clamp low high x = x := by rw [clamp, if_neg hbelow, if_neg habove]
      rw [hx, hx]

end clamp

/-! ## Bytes

A channel is clamped before it is rounded, so what is rounded is a number between 0 and 255 or NaN. -/

/-- The float of a byte has just that value. -/
theorem exactValue?_ofNat {n : Nat} (h : n < 256) : exactValue? (Float.ofNat n) = some (n : ℚ) := by
  -- the conversion multiplies and rounds, so its results are looked at one by one
  have hall : ∀ k < 256, (Dyadic.ofFloat? (Float.ofNat k)).any
      (fun d => !d.negative && d.numerator == k * Nat.pow 2 d.places) = true := by
    decide +kernel
  specialize hall n h
  cases hd : Dyadic.ofFloat? (Float.ofNat n) with
  | none =>
    rw [hd] at hall
    cases hall
  | some d =>
    rw [hd, Option.any_some, Bool.and_eq_true, Bool.not_eq_true', beq_iff_eq] at hall
    obtain ⟨hsign, hnumerator⟩ := hall
    rw [exactValue?, hd, Option.map_some, Dyadic.value, hsign, if_neg Bool.false_ne_true,
      Dyadic.magnitude_eq_div, hnumerator]
    simp

/-- The float zero has the exact value zero. -/
lemma exactValue?_zero : exactValue? 0 = some 0 := by
  have h := exactValue?_ofNat (show 0 < 256 by decide)
  rwa [Nat.cast_zero] at h

/-- The float one has the exact value one. -/
lemma exactValue?_one : exactValue? 1 = some 1 := by
  have h := exactValue?_ofNat (show 1 < 256 by decide)
  rwa [Nat.cast_one] at h

/-- The largest byte, as a float, has its exact value. -/
lemma exactValue?_maxByte : exactValue? 255 = some 255 :=
  exactValue?_ofNat (show 255 < 256 by decide)

/-- What is opaque stays so. -/
lemma clamp_zero_one_one : clamp 0 1 1 = 1 :=
  clamp_eq_self exactValue?_zero exactValue?_one exactValue?_one zero_le_one le_rfl

/-- The float of a byte is within the range of a channel. -/
lemma clamp_ofNat {n : Nat} (h : n < 256) : clamp 0 255 (Float.ofNat n) = Float.ofNat n := by
  have hn : (n : ℚ) ≤ 255 := by exact_mod_cast Nat.le_of_lt_succ h
  exact clamp_eq_self exactValue?_zero exactValue?_maxByte (exactValue?_ofNat h) n.cast_nonneg hn

/-- Half a unit at most lies between a fraction and the whole number nearest to it. -/
lemma Rounding.magnitude_nearest (numerator places : Nat) :
    (nearest.magnitude false numerator places : ℚ) - 1 / 2 ≤ numerator / 2 ^ places ∧
      (numerator : ℚ) / 2 ^ places < nearest.magnitude false numerator places + 1 / 2 := by
  have hscale : (0 : ℚ) < 2 ^ places := by positivity
  have hpos : 0 < 2 * 2 ^ places := by positivity
  have hdown := Nat.mul_div_le (2 * numerator + 2 ^ places) (2 * 2 ^ places)
  have hup := Nat.lt_mul_div_succ (2 * numerator + 2 ^ places) hpos
  change _ * nearest.magnitude false numerator places ≤ _ at hdown
  change _ < _ * (nearest.magnitude false numerator places + 1) at hup
  generalize nearest.magnitude false numerator places = rounded at hdown hup ⊢
  have hdown : (2 * 2 ^ places * rounded : ℚ) ≤ 2 * numerator + 2 ^ places := by
    exact_mod_cast hdown
  have hup : (2 * numerator + 2 ^ places : ℚ) < 2 * 2 ^ places * (rounded + 1) := by
    exact_mod_cast hup
  rw [le_div_iff₀ hscale, div_lt_iff₀ hscale]
  constructor <;> linarith

/-- `n` is the whole number nearest to `x`, where a half goes up and NaN goes to zero. -/
def RoundsTo (x : Float) (n : Nat) : Prop :=
  x.isNaN = true ∧ n = 0 ∨ ∃ v, exactValue? x = some v ∧ (n : ℚ) - 1 / 2 ≤ v ∧ v < n + 1 / 2

/-- **A clamped channel is rounded to the nearest byte.** NaN goes to zero, and so does the negative zero;
any other channel is rounded as the fraction that it is, which cannot lead beyond 255. -/
theorem nearestByte_roundsTo {x : Float}
    (h : x.isNaN = true ∨ ∃ v, exactValue? x = some v ∧ 0 ≤ v ∧ v ≤ 255) :
    RoundsTo x (nearestByte x).toNat := by
  rcases h with hnan | ⟨v, hv, hlow, hhigh⟩
  · obtain ⟨hnotAbove, hnone⟩ := not_lt_of_isNaN hnan 0
    refine .inl ⟨hnan, ?_⟩
    simp only [nearestByte, hnone, if_neg hnotAbove]
    rfl
  · refine .inr ⟨v, hv, ?_⟩
    obtain ⟨d, hd, rfl⟩ := Option.map_eq_some_iff.mp hv
    simp only [nearestByte, hd]
    split
    · next hneg =>
      -- the negative zero
      rw [Dyadic.value, if_pos hneg] at hlow ⊢
      have hzero : d.magnitude = 0 := le_antisymm (by linarith) d.magnitude_nonneg
      rw [hzero]
      norm_num
    · next hpos =>
      rw [Dyadic.value, if_neg hpos, d.magnitude_eq_div] at hhigh ⊢
      have hrounded := Rounding.magnitude_nearest d.numerator d.places
      generalize Rounding.nearest.magnitude false d.numerator d.places = rounded at hrounded ⊢
      have hbyte : rounded ≤ 255 := by
        have hlt : (rounded : ℚ) < 256 := by linarith [hrounded.1]
        have hlt : rounded < 256 := by exact_mod_cast hlt
        omega
      rw [Nat.min_eq_right hbyte, UInt8.toNat_ofNat_of_lt' (Nat.lt_succ_of_le hbyte)]
      exact hrounded

end Stylesheet
