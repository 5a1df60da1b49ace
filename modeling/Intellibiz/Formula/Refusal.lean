import Intellibiz.Formula.RoundTrip

/-!
# Rounded or refused

What the engine returns against the exact value of its arguments.  A product is held in 96 bits
before it is rounded, and a result beyond `i64` is returned as zero.

* `NearOrRefused`, `RoundedOrRefused` — what a result should be.
* `InRange`, `Undisturbed` — the arguments for which it is.

Principal results: `toMinorUnits_near_iff`, `multiply_rounded_iff`, `basisPoints_rounded_iff` and
`results_iff`.
-/

namespace Intellibiz.Formula

open Rounding FixedPoint MachineInt Numeral

/-! ## Modes -/

/-- Where a mode changes. -/
def RoundingMode.threshold : RoundingMode → Threshold
  | .bankers => nearestEven
  | .halfUp => nearestAway
  | .truncate => towardZero

theorem RoundingMode.lt_round_iff {mode : RoundingMode} {q : ℚ} {n : ℤ} :
    n < mode.round q ↔ mode.threshold.Above n q := by
  cases mode with
  | bankers => exact lt_halfEven_iff
  | halfUp => exact lt_halfAway_iff
  | truncate => exact lt_truncate_iff

theorem RoundingMode.abs_sub_round_lt (mode : RoundingMode) (q : ℚ) : |q - mode.round q| < 1 := by
  cases mode with
  | bankers => exact (abs_sub_halfEven_le q).trans_lt (by norm_num)
  | halfUp => exact (abs_sub_halfAway_le q).trans_lt (by norm_num)
  | truncate => exact abs_sub_truncate_lt q

/-! ## What a result should be -/

/-- Within one unit of the exact value; out of range, an error. -/
def NearOrRefused (x : ℚ) (result : Option (Except FormulaError Int64)) : Prop :=
  (∀ r, result = some (.ok r) → |(r.toInt : ℚ) - x| ≤ 1) ∧
    (¬ InI64 (truncate x) → ∃ e, result = some (.error e))

/-- The exact value, rounded; out of range, an error. -/
def RoundedOrRefused (mode : RoundingMode) (x : ℚ) (result : Option (Except FormulaError Int64)) :
    Prop :=
  (∀ r, result = some (.ok r) → r.toInt = mode.round x) ∧
    (¬ InI64 (mode.round x) → ∃ e, result = some (.error e))

/-- The amount, if it is read, is in range. -/
def InRange (q : ℚ) (currency : String) : Prop :=
  ∀ v d, held halfAway q = some v → currencyDecimals currency = .ok d →
    InI64 (truncate (v * 10 ^ d))

/-- The exact product, if the factor is read, is in range, and the digits that fit put it on the
same side of each point where the mode changes. -/
def Undisturbed (minor : Int64) (q : ℚ) (mode : RoundingMode) : Prop :=
  ∀ f, held halfAway q = some f → InI64 (mode.round (minor.toInt * q)) ∧
    ∃ z, held halfEven (minor.toInt * f) = some z ∧
      ∀ n, mode.threshold.Above n (minor.toInt * q) ↔ mode.threshold.Above n z

section Ranges

theorem abs_of_not_inI64 {n : ℤ} (h : ¬ InI64 n) : 2 ^ 63 ≤ |n| := by
  unfold InI64 at h
  rw [le_abs]
  omega

theorem not_inI64_of_abs {n : ℤ} (h : 2 ^ 63 < |n|) : ¬ InI64 n := by
  rintro ⟨hlow, hhigh⟩
  have hle : |n| ≤ 2 ^ 63 := abs_le.2 ⟨by omega, by omega⟩
  omega

theorem abs_minor_le (minor : Int64) : |(minor.toInt : ℚ)| ≤ 2 ^ 63 := by
  exact_mod_cast abs_toInt_le minor

theorem toI64_of_in {q : ℚ} (h : InI64 (truncate q)) : toI64 q = some (Int64.ofInt (truncate q)) :=
  if_pos h

theorem toI64_of_not {q : ℚ} (h : ¬ InI64 (truncate q)) : toI64 q = none := if_neg h

/-- An integer in range is returned. -/
theorem toInt_toI64 {n : ℤ} (h : InI64 n) : ((toI64 n).getD 0).toInt = n := by
  rw [toI64_of_in (by rwa [truncate_intCast]), truncate_intCast, Option.getD_some, toInt_ofInt h]

/-- A value near one out of range is not near zero. -/
theorem large_of_truncate {q : ℚ} (h : ¬ InI64 (truncate q)) : (2 : ℚ) ^ 63 - 1 < |q| := by
  have hint := abs_of_not_inI64 h
  have hcast : (2 : ℚ) ^ 63 ≤ |(truncate q : ℚ)| := by exact_mod_cast hint
  have herr := abs_sub_truncate_lt q
  have htri := abs_sub_abs_le_abs_sub (truncate q : ℚ) q
  rw [abs_sub_comm] at htri
  linarith

theorem abs_held_sub_le {ρ : ℚ → ℤ} (hρ : ∀ q, |q - ρ q| ≤ 1 / 2) {q z : ℚ}
    (h : held ρ q = some z) : |z - q| ≤ 1 / 2 :=
  abs_hold_sub_le hρ h

theorem large_of_held_none {q : ℚ} (h : held halfEven q = none) : (2 : ℚ) ^ 96 - 1 ≤ |q| := by
  have hle := le_of_hold_eq_none h
  have hcast : (2 : ℚ) ^ 96 ≤ |(halfEven q : ℚ)| := by exact_mod_cast hle
  have hround := abs_round_le abs_sub_halfEven_le q
  linarith

end Ranges

/-! ## `multiply` -/

section Multiply

variable {R : RustDecimal} {minor : Int64} {factor : String} {q : ℚ} {mode : RoundingMode}

/-- The factor is read up to half a unit, and so is the product held. -/
theorem abs_product_sub_le {f : ℚ} (hf : held halfAway q = some f) :
    |minor.toInt * f - minor.toInt * q| ≤ 2 ^ 62 := by
  have herr := abs_held_sub_le abs_sub_halfAway_le hf
  have hminor := abs_minor_le minor
  rw [← mul_sub, abs_mul]
  calc |(minor.toInt : ℚ)| * |f - q| ≤ 2 ^ 63 * (1 / 2) :=
        mul_le_mul hminor herr (abs_nonneg _) (by positivity)
    _ = 2 ^ 62 := by norm_num

/-- A product that overflows, or is out of range when rounded, is large. -/
theorem large_product {f : ℚ} (hf : held halfAway q = some f)
    (h : (2 : ℚ) ^ 63 - 2 < |minor.toInt * f|) : 2 < |minor.toInt * q| := by
  have herr := @abs_product_sub_le minor _ _ hf
  have htri := abs_sub_abs_le_abs_sub (minor.toInt * f) (minor.toInt * q)
  linarith

theorem large_of_round {z : ℚ} (hz : ¬ InI64 (mode.round z)) : (2 : ℚ) ^ 63 - 1 < |z| := by
  have hint := abs_of_not_inI64 hz
  have hcast : (2 : ℚ) ^ 63 ≤ |(mode.round z : ℚ)| := by exact_mod_cast hint
  have herr := mode.abs_sub_round_lt z
  have htri := abs_sub_abs_le_abs_sub (mode.round z : ℚ) z
  rw [abs_sub_comm] at htri
  linarith

/-- Where the exact product is in range, the product is held. -/
theorem held_product {f : ℚ} (hf : held halfAway q = some f)
    (hin : InI64 (mode.round (minor.toInt * q))) : ∃ z, held halfEven (minor.toInt * f) = some z := by
  cases hz : held halfEven (minor.toInt * f) with
  | some z => exact ⟨z, rfl⟩
  | none =>
    have hlarge := large_of_held_none hz
    have herr := @abs_product_sub_le minor _ _ hf
    have htri := abs_sub_abs_le_abs_sub (minor.toInt * f) (minor.toInt * q)
    have hround := mode.abs_sub_round_lt (minor.toInt * q)
    have htri' := abs_sub_abs_le_abs_sub (minor.toInt * q) (mode.round (minor.toInt * q) : ℚ)
    have hcast : (2 : ℚ) ^ 63 < |(mode.round (minor.toInt * q) : ℚ)| := by linarith
    exact absurd hin (not_inI64_of_abs (by exact_mod_cast hcast))

/-- The zero that is returned out of range is not the rounded product. -/
theorem round_ne_zero {f z : ℚ} (hf : held halfAway q = some f)
    (hz : held halfEven (minor.toInt * f) = some z) (hout : ¬ InI64 (mode.round z)) :
    mode.round (minor.toInt * q) ≠ 0 := by
  intro hzero
  have hlarge := large_of_round hout
  have herr := abs_held_sub_le abs_sub_halfEven_le hz
  have htri := abs_sub_abs_le_abs_sub z (minor.toInt * f)
  have hbig := large_product hf (by linarith)
  have hround := mode.abs_sub_round_lt (minor.toInt * q)
  rw [hzero, Int.cast_zero, sub_zero] at hround
  linarith

/-- **What is returned is the exact product, rounded, exactly if the digits that fit are on its side
of each point where the mode changes.** -/
theorem returned_eq_iff {f z : ℚ} (hf : held halfAway q = some f)
    (hz : held halfEven (minor.toInt * f) = some z) (hin : InI64 (mode.round (minor.toInt * q))) :
    ((toI64 (mode.round z)).getD 0).toInt = mode.round (minor.toInt * q) ↔
      ∀ n, mode.threshold.Above n (minor.toInt * q) ↔ mode.threshold.Above n z := by
  rw [← Threshold.rounds_eq_iff RoundingMode.lt_round_iff RoundingMode.lt_round_iff, eq_comm]
  by_cases hzin : InI64 (mode.round z)
  · rw [toInt_toI64 hzin]
  · have hne := round_ne_zero hf hz hzin
    have hzero : ((toI64 (mode.round z)).getD 0).toInt = 0 := by
      rw [toI64_of_not (by rwa [truncate_intCast])]
      rfl
    rw [hzero]
    refine iff_of_false hne fun heq => hzin ?_
    rwa [← heq]

/-- **A product is rounded or refused exactly if it is in range and not disturbed.** -/
theorem multiply_rounded_iff (hq : value? factor = some q) :
    RoundedOrRefused mode (minor.toInt * q) (multiply R minor factor mode) ↔
      Undisturbed minor q mode := by
  rw [multiply_eq hq]
  cases hf : held halfAway q with
  | none =>
    constructor
    · intro _ f hf'
      rw [hf] at hf'
      cases hf'
    · intro _
      exact ⟨by simp, fun _ => ⟨_, rfl⟩⟩
  | some f =>
    constructor
    · rintro ⟨hok, hrefused⟩ f' hf'
      rw [hf] at hf'
      cases hf'
      have hin : InI64 (mode.round (minor.toInt * q)) := by
        by_contra hout
        obtain ⟨e, he⟩ := hrefused hout
        obtain ⟨z, -, hz⟩ := Option.map_eq_some_iff.1 he
        cases hz
      obtain ⟨z, hz⟩ := held_product hf hin
      refine ⟨hin, z, hz, (returned_eq_iff hf hz hin).1 (hok _ ?_)⟩
      simp only [hz, Option.map_some]
    · intro h
      obtain ⟨hin, z, hz, hside⟩ := h f hf
      refine ⟨fun r hr => ?_, fun hout => absurd hin hout⟩
      simp only [hz, Option.map_some, Option.some.injEq, Except.ok.injEq] at hr
      rw [← hr]
      exact (returned_eq_iff hf hz hin).2 hside

/-- A product that fits is not disturbed. -/
theorem undisturbed_of_fits (hq : Fits (2 ^ 96) 28 q) (hx : Fits (2 ^ 96) 28 (minor.toInt * q))
    (hin : InI64 (mode.round (minor.toInt * q))) : Undisturbed minor q mode := by
  intro f hf
  have hread : held halfAway q = some q := hold_eq halfAway_intCast hq
  rw [hread] at hf
  cases hf
  exact ⟨hin, _, hold_eq halfEven_intCast hx, fun _ => Iff.rfl⟩

/-- **Basis points are rounded or refused exactly if the result is in range.** -/
theorem basisPoints_rounded_iff {basisPoints : UInt32} :
    RoundedOrRefused mode (minor.toInt * basisPoints.toNat / 10000)
        (applyBasisPoints R minor basisPoints mode) ↔
      InI64 (mode.round (minor.toInt * basisPoints.toNat / 10000)) := by
  rw [applyBasisPoints_eq]
  set x : ℚ := minor.toInt * basisPoints.toNat / 10000
  constructor
  · rintro ⟨-, hrefused⟩
    by_contra hout
    obtain ⟨e, he⟩ := hrefused hout
    cases he
  · intro hin
    refine ⟨fun r hr => ?_, fun hout => absurd hin hout⟩
    cases hr
    exact toInt_toI64 hin

end Multiply

/-! ## `to_minor_units` -/

section ToMinor

variable {R : RustDecimal} {amount currency : String} {q v : ℚ} {d : ℕ}

theorem le_halfAway {n : ℤ} (h : (n : ℚ) ≤ q) : n ≤ halfAway q := by
  have herr := abs_le.1 (abs_sub_halfAway_le q)
  have hlt : ((n - 1 : ℤ) : ℚ) < halfAway q := by
    push_cast
    linarith
  have hlt' : n - 1 < halfAway q := by exact_mod_cast hlt
  omega

theorem halfAway_le {n : ℤ} (h : q ≤ n) : halfAway q ≤ n := by
  have herr := abs_le.1 (abs_sub_halfAway_le q)
  have hlt : (halfAway q : ℚ) < ((n + 1 : ℤ) : ℚ) := by
    push_cast
    linarith
  have hlt' : halfAway q < n + 1 := by exact_mod_cast hlt
  omega

theorem truncate_lt_iff {n : ℤ} (hn : 0 < n) : truncate q < n ↔ q < n := by
  have hiff := lt_truncate_iff (q := q) (n := n - 1)
  rw [Threshold.Above, towardZero] at hiff
  simp only [show 0 ≤ n - 1 by omega, if_true, and_true] at hiff
  push_cast at hiff
  rw [sub_add_cancel] at hiff
  rw [← not_le, ← not_le, not_iff_not, ← Int.sub_one_lt_iff, hiff, le_iff_lt_or_eq, eq_comm]

theorem lt_truncate_of_neg {n : ℤ} (hn : n < 0) : n < truncate q ↔ n < q := by
  rw [lt_truncate_iff, Threshold.Above, towardZero]
  simp [not_le.2 hn]

/-- The integral part is in `i64`. -/
theorem inI64_truncate_iff : InI64 (truncate q) ↔ -2 ^ 63 - 1 < q ∧ q < 2 ^ 63 := by
  have hhigh := @truncate_lt_iff q (2 ^ 63) (by norm_num)
  have hlow := @lt_truncate_of_neg q (-2 ^ 63 - 1) (by norm_num)
  push_cast at hhigh hlow
  constructor
  · rintro ⟨hle, hlt⟩
    have hq := hlow.1 (by omega)
    have hq' := hhigh.1 (by omega)
    constructor <;> linarith
  · rintro ⟨hle, hlt⟩
    have hn := hlow.2 (by linarith)
    have hn' := hhigh.2 (by linarith)
    constructor <;> omega

/-- The error of an amount as it is read. -/
theorem abs_amount_sub_le (hv : held halfAway q = some v) (hd : d ≤ 3) :
    |v * 10 ^ d - q * 10 ^ d| ≤ 500 := by
  have herr := abs_held_sub_le abs_sub_halfAway_le hv
  have hpow : (10 : ℚ) ^ d ≤ 10 ^ 3 := pow_le_pow_right₀ (by norm_num) hd
  have hpos : (0 : ℚ) < 10 ^ d := by positivity
  rw [← sub_mul, abs_mul, abs_of_pos hpos]
  calc |v - q| * 10 ^ d ≤ 1 / 2 * 10 ^ 3 := mul_le_mul herr hpow hpos.le (by norm_num)
    _ = 500 := by norm_num

/-- An amount in range is read to some decimal of the minor unit. -/
theorem amount_eq (hv : held halfAway q = some v) (hd : d ≤ 3)
    (hin : InI64 (truncate (v * 10 ^ d))) :
    ∃ k : ℕ, v * 10 ^ d = halfAway (q * 10 ^ d * 10 ^ k) / 10 ^ k := by
  have hread := abs_held_sub_le abs_sub_halfAway_le hv
  obtain ⟨p, -, hvp, hlt, hnext⟩ := hold_spec hv
  rcases le_or_gt d p with hle | hgt
  · obtain ⟨k, rfl⟩ := Nat.exists_eq_add_of_le hle
    refine ⟨k, ?_⟩
    rw [hvp, pow_add, mul_assoc]
    field_simp
  · exfalso
    have hlarge : (2 : ℤ) ^ 96 ≤ |halfAway (q * 10 ^ (p + 1))| := by
      rcases hnext with hp | hnext
      · omega
      · exact_mod_cast hnext
    have hcast : (2 : ℚ) ^ 96 ≤ |(halfAway (q * 10 ^ (p + 1)) : ℚ)| := by exact_mod_cast hlarge
    have hround := abs_round_le abs_sub_halfAway_le (q * 10 ^ (p + 1))
    -- one digit more would not fit, and the currency asks for at least one more
    have hpow : (10 : ℚ) ^ (p + 1) ≤ 10 ^ d := pow_le_pow_right₀ (by norm_num) hgt
    have hpow' : (10 : ℚ) ^ (p + 1) ≤ 10 ^ 3 := hpow.trans (pow_le_pow_right₀ (by norm_num) hd)
    have hpos : (0 : ℚ) < 10 ^ (p + 1) := by positivity
    have habs : |q * 10 ^ (p + 1)| = |q| * 10 ^ (p + 1) := by rw [abs_mul, abs_of_pos hpos]
    have hq : |q| ≤ |v| + 1 / 2 := by
      have htri' := abs_sub_abs_le_abs_sub q v
      rw [abs_sub_comm] at htri'
      linarith
    have hmul := mul_le_mul_of_nonneg_right hq hpos.le
    have hvd : |v| * 10 ^ (p + 1) ≤ |v| * 10 ^ d := mul_le_mul_of_nonneg_left hpow (abs_nonneg v)
    have hvabs : |v * 10 ^ d| = |v| * 10 ^ d := by
      rw [abs_mul, abs_of_pos (show (0 : ℚ) < 10 ^ d by positivity)]
    obtain ⟨hlow, hhigh⟩ := inI64_truncate_iff.1 hin
    have hsmall : |v * 10 ^ d| < 2 ^ 63 + 1 := abs_lt.2 ⟨by linarith, by linarith⟩
    linarith

/-- The integral part of a multiple of `10 ^ -k` is a full such unit less than one away. -/
theorem abs_truncate_sub_le (m : ℤ) (k : ℕ) :
    |(truncate ((m : ℚ) / 10 ^ k) : ℚ) - m / 10 ^ k| ≤ 1 - 1 / 10 ^ k := by
  have hpos : (0 : ℚ) < 10 ^ k := by positivity
  have hlt := abs_sub_truncate_lt ((m : ℚ) / 10 ^ k)
  set t := truncate ((m : ℚ) / 10 ^ k)
  have hscaled : |((t * 10 ^ k - m : ℤ) : ℚ)| < 10 ^ k := by
    have hdiff : ((t * 10 ^ k - m : ℤ) : ℚ) = -((m : ℚ) / 10 ^ k - t) * 10 ^ k := by
      push_cast
      field_simp
      ring
    rw [hdiff, abs_mul, abs_neg, abs_of_pos hpos]
    exact (mul_lt_mul_of_pos_right hlt hpos).trans_eq (one_mul _)
  have hint : |t * 10 ^ k - m| ≤ 10 ^ k - 1 := by
    have hlt' : |t * 10 ^ k - m| < 10 ^ k := by exact_mod_cast hscaled
    omega
  have hcast : |((t * 10 ^ k - m : ℤ) : ℚ)| ≤ 10 ^ k - 1 := by exact_mod_cast hint
  have hdiff : (t : ℚ) - m / 10 ^ k = ((t * 10 ^ k - m : ℤ) : ℚ) / 10 ^ k := by
    push_cast
    field_simp
  have hone : (1 : ℚ) - 1 / 10 ^ k = (10 ^ k - 1) / 10 ^ k := by field_simp
  rw [hdiff, hone, abs_div, abs_of_pos hpos]
  exact div_le_div_of_nonneg_right hcast hpos.le

/-- What is read in range is within one unit of the exact amount, which then is in range, too. -/
theorem near_of_inRange {x : ℚ} {k : ℕ}
    (hin : InI64 (truncate ((halfAway (x * 10 ^ k) : ℚ) / 10 ^ k))) :
    |(truncate ((halfAway (x * 10 ^ k) : ℚ) / 10 ^ k) : ℚ) - x| ≤ 1 ∧ InI64 (truncate x) := by
  have hpos : (0 : ℚ) < 10 ^ k := by positivity
  constructor
  · have htrunc := abs_truncate_sub_le (halfAway (x * 10 ^ k)) k
    have hread : |(halfAway (x * 10 ^ k) : ℚ) / 10 ^ k - x| ≤ 1 / 10 ^ k := by
      have herr := abs_sub_halfAway_le (x * 10 ^ k)
      have hdiff : (halfAway (x * 10 ^ k) : ℚ) / 10 ^ k - x =
          (halfAway (x * 10 ^ k) - x * 10 ^ k) / 10 ^ k := by field_simp
      rw [hdiff, abs_div, abs_of_pos hpos, abs_sub_comm]
      exact div_le_div_of_nonneg_right (herr.trans (by norm_num)) hpos.le
    have htri := abs_sub_le (truncate ((halfAway (x * 10 ^ k) : ℚ) / 10 ^ k) : ℚ)
      (halfAway (x * 10 ^ k) / 10 ^ k) x
    linarith
  · obtain ⟨hlow, hhigh⟩ := inI64_truncate_iff.1 hin
    rw [lt_div_iff₀ hpos] at hlow
    rw [div_lt_iff₀ hpos] at hhigh
    rw [inI64_truncate_iff]
    constructor
    · by_contra hle
      have hmul := mul_le_mul_of_nonneg_right (not_lt.1 hle) hpos.le
      have hbound := @halfAway_le (x * 10 ^ k) ((-2 ^ 63 - 1) * 10 ^ k) (by push_cast; linarith)
      have hcast : (halfAway (x * 10 ^ k) : ℚ) ≤ (-2 ^ 63 - 1) * 10 ^ k := by exact_mod_cast hbound
      linarith
    · by_contra hle
      have hmul := mul_le_mul_of_nonneg_right (not_lt.1 hle) hpos.le
      have hbound := @le_halfAway (x * 10 ^ k) (2 ^ 63 * 10 ^ k) (by push_cast; linarith)
      have hcast : (2 : ℚ) ^ 63 * 10 ^ k ≤ (halfAway (x * 10 ^ k) : ℚ) := by exact_mod_cast hbound
      linarith

/-- **An amount is converted or refused exactly if, as it is read, it is in range.** -/
theorem toMinorUnits_near_iff (hq : value? amount = some q) :
    (∀ d, currencyDecimals currency = .ok d →
        NearOrRefused (q * 10 ^ d) (toMinorUnits R amount currency)) ↔ InRange q currency := by
  rw [toMinorUnits_eq hq]
  constructor
  · intro h v d hv hd
    obtain ⟨hok, hrefused⟩ := h d hd
    rw [hv, hd] at hok hrefused
    by_contra hout
    have herr := abs_amount_sub_le hv (currencyDecimals_le hd)
    have htri := abs_sub_abs_le_abs_sub (v * 10 ^ d) (q * 10 ^ d)
    cases hz : held halfEven (v * 10 ^ d) with
    | none =>
      have hlarge := large_of_held_none hz
      simp only [hz, Option.map_none] at hrefused
      by_cases hin : InI64 (truncate (q * 10 ^ d))
      · obtain ⟨hlow, hhigh⟩ := inI64_truncate_iff.1 hin
        have hsmall : |q * 10 ^ d| < 2 ^ 63 + 1 := abs_lt.2 ⟨by linarith, by linarith⟩
        linarith
      · obtain ⟨e, he⟩ := hrefused hin
        cases he
    | some z =>
      -- zero is returned
      have hexact : z = v * 10 ^ d := hold_mul_pow halfEven_intCast (fits_of_hold hv) hz
      subst hexact
      have hlarge := large_of_truncate hout
      have hzero := hok 0 (by simp [hz, toI64_of_not hout])
      have hnum : ((0 : Int64).toInt : ℚ) = 0 := by
        rw [show (0 : Int64).toInt = 0 from rfl, Int.cast_zero]
      rw [hnum, zero_sub, abs_neg] at hzero
      linarith
  · intro h d hd
    cases hv : held halfAway q with
    | none => exact ⟨by simp, fun _ => ⟨_, rfl⟩⟩
    | some v =>
      have hin := h v d hv hd
      obtain ⟨k, hk⟩ := amount_eq hv (currencyDecimals_le hd) hin
      have hnear := hk ▸ hin
      obtain ⟨hone, hexact⟩ := near_of_inRange hnear
      rw [← hk] at hone
      refine ⟨fun r hr => ?_, fun hout => absurd hexact hout⟩
      rw [hd] at hr
      obtain ⟨z, hz, hr⟩ := Option.map_eq_some_iff.1 hr
      have hheld : z = v * 10 ^ d := hold_mul_pow halfEven_intCast (fits_of_hold hv) hz
      rw [hheld, toI64_of_in hin, Option.getD_some] at hr
      rw [← Except.ok.inj hr, toInt_ofInt hin]
      exact hone

end ToMinor

end Intellibiz.Formula
