import Intellibiz.Finance.Money

/-!
# What an allocation hands out

`allocate` splits the amount rounded down to minor units, while `toMinorUnits` rounds it half to
even.

* `Conserves` — one share for each ratio, and the minor units of the shares add up to those of the
  amount.
* `Safe` — the minor units and the sum of the ratios are safe integers.
* `slack` — how far the 28 digits of the quotas can lead astray.

Principal results: `allocation_quota` (a quota, up to the slack), `allocate_eq` (the shares),
`sum_toMinorUnits` and `conserves_iff`.
-/

namespace Intellibiz.Finance

open Rounding Apportion

/-- What is split is what would be charged. -/
def Conserves (m : Money) (ratios : List ℕ) : Prop :=
  ∃ shares, m.allocate ratios = .ok shares ∧ shares.length = ratios.length ∧
    (shares.map Money.toMinorUnits).sum = m.toMinorUnits

/-- The minor units and the sum of the ratios are safe integers. -/
structure Safe (m : Money) (ratios : List ℕ) : Prop where
  minor : |m.scaled| ≤ 2 ^ 53 - 1
  weights : ratios.sum ≤ 2 ^ 53

/-- A bound of the errors that the quotas of `n` minor units make together. -/
def slack (n : ℤ) : ℚ := |(n : ℚ)| * (2 / 10 ^ 27)

section Shares

variable {m : Money} {ratios : List ℕ}

theorem Safe.floor_le (h : Safe m ratios) : |⌊m.scaled⌋| ≤ 2 ^ 53 - 1 := by
  obtain ⟨hlow, hhigh⟩ := abs_le.1 h.minor
  have hle : (⌊m.scaled⌋ : ℚ) ≤ 2 ^ 53 - 1 := (Int.floor_le _).trans hhigh
  rw [abs_le]
  constructor
  · apply Int.le_floor.2
    push_cast
    linarith
  · exact_mod_cast hle

theorem slack_nonneg (n : ℤ) : 0 ≤ slack n := by
  unfold slack
  positivity

theorem slack_lt {n : ℤ} (h : |n| ≤ 2 ^ 53 - 1) : slack n < 1 := by
  have hcast : |(n : ℚ)| ≤ 2 ^ 53 - 1 := by exact_mod_cast h
  unfold slack
  linarith

/-- The quotient of a share, in 28 digits. -/
theorem abs_quotient_sub_le (n : ℤ) {R : ℕ} (hR : 0 < R) (r : ℕ) :
    |decimal (decimal (n * r) / R) * R - n * r| ≤ slack n * r := by
  have hRpos : (0 : ℚ) < R := by exact_mod_cast hR
  have hprod := abs_decimal_sub_le ((n : ℚ) * r)
  have hquot := abs_decimal_sub_le (decimal ((n : ℚ) * r) / R)
  set z := decimal ((n : ℚ) * r)
  set y := decimal (z / R)
  have hscaled : |y * R - z| ≤ |z| * (1 / (2 * 10 ^ 27)) := by
    have hmul := mul_le_mul_of_nonneg_right hquot hRpos.le
    rw [← abs_of_pos hRpos, ← abs_mul, abs_of_pos hRpos, sub_mul, div_mul_cancel₀ _ hRpos.ne',
      abs_div, abs_of_pos hRpos] at hmul
    exact hmul.trans_eq (by field_simp)
  have habs : |(n : ℚ) * r| = |(n : ℚ)| * r := by rw [abs_mul, Nat.abs_cast]
  have hz : |z| ≤ |(n : ℚ) * r| * (1 + 1 / (2 * 10 ^ 27)) := by
    have htri := abs_sub_abs_le_abs_sub z ((n : ℚ) * r)
    linarith
  have hnonneg := abs_nonneg ((n : ℚ) * r)
  calc |y * R - n * r| ≤ |y * R - z| + |z - n * r| := abs_sub_le _ _ _
    _ ≤ |(n : ℚ) * r| * (2 / 10 ^ 27) := by linarith
    _ = slack n * r := by
      rw [habs, slack]
      ring

theorem allocation_quota (h : Safe m ratios) (hpos : 0 < ratios.sum) (n : ℤ) (r : ℕ) :
    Quota (slack n) n ratios.sum r (allocation n ratios r) := by
  have hR : (0 : ℚ) < (ratios.sum : ℕ) := by exact_mod_cast hpos
  have herr := abs_le.1 (abs_quotient_sub_le n hpos r)
  unfold allocation
  rw [totalRatio_eq h.weights]
  have hfloor := mul_le_mul_of_nonneg_right
    (Int.floor_le (decimal (decimal (n * r) / (ratios.sum : ℕ)))) hR.le
  have hlt := mul_le_mul_of_nonneg_right
    (Int.lt_floor_add_one (decimal (decimal (n * r) / (ratios.sum : ℕ)))).le hR.le
  constructor
  · linarith
  · cases r with
    | zero => simp [decimal]
    | succ r =>
      have hmin : min 1 (r + 1) = 1 := by omega
      rw [hmin, Nat.cast_one]
      linarith

/-- A share of `n` minor units. -/
def share (m : Money) (n : ℤ) : Money :=
  money (toFixed (getCurrencyDecimals m.currency) (decimal (n / m.factor))) m.currency

theorem share_toMinorUnits {n : ℤ} (hn : |n| ≤ 2 ^ 53) : (share m n).toMinorUnits = n := by
  have hsmall : |n| ≤ 10 ^ PRECISION := hn.trans (by norm_num [PRECISION])
  have hfactor : m.factor ≠ 0 := by
    unfold Money.factor
    positivity
  have hcurrency : (share m n).currency = m.currency := m.upper
  have hdecimal : decimal ((n : ℚ) / m.factor) = n / m.factor :=
    decimal_eq (representable_div (.int hsmall) _)
  have hamount : (share m n).amount = n / m.factor := by
    show toFixed (getCurrencyDecimals m.currency) (decimal (n / m.factor)) = n / m.factor
    have hwhole : (n : ℚ) / m.factor * 10 ^ getCurrencyDecimals m.currency = n :=
      div_mul_cancel₀ _ hfactor
    rw [hdecimal, toFixed, hwhole, halfEven_intCast]
    rfl
  have hsame : (share m n).factor = m.factor := by
    unfold Money.factor
    rw [hcurrency]
  have hscaled : (share m n).scaled = n := by
    rw [Money.scaled, hamount, hsame, div_mul_cancel₀ _ hfactor, decimal_int hsmall]
  rw [Money.toMinorUnits, hscaled, halfEven_intCast, double_int hn]

/-- The quotas that `allocate` rounds down. -/
def quotas (m : Money) (ratios : List ℕ) : List ℤ := ratios.map (allocation ⌊m.scaled⌋ ratios)

theorem quotas_spec (h : Safe m ratios) (hpos : 0 < ratios.sum) :
    List.Forall₂ (Quota (slack ⌊m.scaled⌋) ⌊m.scaled⌋ ratios.sum) ratios (quotas m ratios) := by
  unfold quotas
  rw [List.forall₂_map_right_iff]
  exact List.forall₂_same.2 fun r _ => allocation_quota h hpos _ r

theorem ne_nil_of_pos (hpos : 0 < ratios.sum) : ratios ≠ [] := by
  rintro rfl
  simp at hpos

/-- **The shares of an allocation.** -/
theorem allocate_eq (h : Safe m ratios) (hpos : 0 < ratios.sum) :
    m.allocate ratios = .ok ((shares ⌊m.scaled⌋ (quotas m ratios)).map (share m)) := by
  have htotal : totalRatio ratios ≠ 0 := by
    rw [totalRatio_eq h.weights]
    exact_mod_cast hpos.ne'
  have hspec := quotas_spec h hpos
  have hquotas : ratios.map (allocation ⌊m.scaled⌋ ratios) = quotas m ratios := rfl
  have hn53 := h.floor_le
  have hη := slack_nonneg ⌊m.scaled⌋
  have hη1 := slack_lt hn53
  set n := ⌊m.scaled⌋ with hn
  set qs := quotas m ratios
  -- every sum on the way stays below 28 digits
  have hsum53 : ((ratios.sum : ℕ) : ℤ) ≤ 2 ^ 53 := by exact_mod_cast h.weights
  have habs : (qs.map abs).sum ≤ |n| + (ratios.sum : ℕ) := sum_abs_le hpos hη hη1 hspec rfl
  have hrest : |n - qs.sum| ≤ max |n| (ratios.sum : ℕ) := abs_rest_le hpos hη hη1 hspec le_rfl
  have hle : qs.sum ≤ n := sum_le_total hpos hη1 hspec rfl
  have hallocated : qs.foldl (fun (a : ℚ) (b : ℤ) => decimal (a + b)) 0 = (qs.sum : ℤ) := by
    have hfold := @foldl_decimal qs 0 (by
      rw [abs_zero, zero_add]
      unfold PRECISION
      omega)
    rw [Int.cast_zero, zero_add] at hfold
    exact hfold
  have hremainder : decimal ((n : ℚ) - (qs.sum : ℤ)) = ((n - qs.sum : ℤ) : ℚ) := by
    rw [← Int.cast_sub]
    apply decimal_int
    unfold PRECISION
    omega
  have hminors : (if 0 < ((n - qs.sum : ℤ) : ℚ) then Finance.addToFirst ((n - qs.sum : ℤ) : ℚ) qs
      else qs.map ((↑) : ℤ → ℚ)) = (shares n qs).map ((↑) : ℤ → ℚ) := by
    split
    · apply addToFirst_eq
      unfold PRECISION
      omega
    · rename_i hnot
      have hnot' : n - qs.sum ≤ 0 := by exact_mod_cast not_lt.1 hnot
      have hzero : n - qs.sum = 0 := by omega
      unfold shares
      rw [hzero]
      cases qs <;> simp [Apportion.addToFirst]
  unfold Money.allocate
  rw [if_neg (ne_nil_of_pos hpos), if_neg htotal]
  simp only [← hn, hquotas, hallocated, hremainder, hminors, List.map_map]
  rfl

/-- The shares, charged one by one. -/
theorem map_toMinorUnits (h : Safe m ratios) (hpos : 0 < ratios.sum) :
    ((shares ⌊m.scaled⌋ (quotas m ratios)).map (share m)).map Money.toMinorUnits =
      (shares ⌊m.scaled⌋ (quotas m ratios)).map ((↑) : ℤ → ℚ) := by
  have hn := h.floor_le
  have hsum : ((ratios.sum : ℕ) : ℤ) ≤ 2 ^ 53 := by exact_mod_cast h.weights
  rw [List.map_map]
  refine List.map_congr_left fun a ha => ?_
  have ha' := abs_shares_le (slack_nonneg _) (slack_lt hn) (quotas_spec h hpos) hpos a ha
  apply share_toMinorUnits
  omega

/-- **Nothing of the amount rounded down is lost.** -/
theorem sum_toMinorUnits (h : Safe m ratios) (hpos : 0 < ratios.sum) :
    (((shares ⌊m.scaled⌋ (quotas m ratios)).map (share m)).map Money.toMinorUnits).sum =
      ⌊m.scaled⌋ := by
  have hne : quotas m ratios ≠ [] := by
    unfold quotas
    rw [Ne, List.map_eq_nil_iff]
    exact ne_nil_of_pos hpos
  rw [map_toMinorUnits h hpos, ← Int.cast_list_sum, sum_shares hne]

end Shares

/-- **An allocation hands out what would be charged exactly if the amount is not rounded up to its
minor units.** -/
theorem conserves_iff (m : Money) (ratios : List ℕ) (hpos : 0 < ratios.sum) (h : Safe m ratios) :
    Conserves m ratios ↔ ¬ RoundsUp m.scaled := by
  have hcharged : m.toMinorUnits = (halfEven m.scaled : ℚ) := by
    have hle : |halfEven m.scaled| ≤ 2 ^ 53 - 1 := by
      apply abs_halfEven_le
      push_cast
      linarith [h.minor]
    apply double_int
    omega
  have hlength : ((shares ⌊m.scaled⌋ (quotas m ratios)).map (share m)).length = ratios.length := by
    rw [List.length_map, length_shares, quotas, List.length_map]
  have hconserves : Conserves m ratios ↔ (⌊m.scaled⌋ : ℚ) = halfEven m.scaled := by
    unfold Conserves
    rw [allocate_eq h hpos, hcharged, ← sum_toMinorUnits h hpos]
    constructor
    · rintro ⟨shares, hshares, -, hsum⟩
      cases hshares
      exact hsum
    · intro hsum
      exact ⟨_, rfl, hlength, hsum⟩
  rw [hconserves, Int.cast_inj, eq_comm, halfEven_eq_floor_iff]

/-- `money('22.99', 'USD').allocate([70, 30])` -/
theorem conserves_iff_cents :
    Safe (money (2299 / 100) "USD") [70, 30] ∧
      (Conserves (money (2299 / 100) "USD") [70, 30] ↔
        ¬ RoundsUp (money (2299 / 100) "USD").scaled) := by
  have hsafe : Safe (money (2299 / 100) "USD") [70, 30] := ⟨by decide +kernel, by decide⟩
  exact ⟨hsafe, conserves_iff _ _ (by decide) hsafe⟩

/-- `money('22.995', 'USD')` is charged as 2300 cents and split into 2299. -/
theorem halfCent_not_conserved : ¬ Conserves (money (22995 / 1000) "USD") [70, 30] := by
  rintro ⟨shares, hshares, -, hsum⟩
  have hsplit : ((money (22995 / 1000) "USD").allocate [70, 30]).map
      (fun shares => (shares.map Money.toMinorUnits).sum) = .ok 2299 := by decide +kernel
  have hcharged : (money (22995 / 1000) "USD").toMinorUnits = 2300 := by decide +kernel
  rw [hshares, Except.map, hsum, hcharged] at hsplit
  exact absurd (Except.ok.inj hsplit) (by decide)

end Intellibiz.Finance
