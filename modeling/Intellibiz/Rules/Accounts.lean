import Mathlib.Tactic.LinearCombination
import Intellibiz.Rules.Rates

/-!
# The accounts of the pipeline

The rule keeps the tax to the decimals that fit and rounds it to hundredths, and adds it to the
amount as far as the sum fits.

* `RoundsTo` — an exact tax of which the rule makes that tax, rounded to a number of decimals.
* `Conserved` — what the result has to say about the amount.

Principal results: `cents_iff` (when the tax is the exact one, rounded), `evaluate_cases` (what the
pipeline returns) and `evaluate_conserves_iff`.
-/

namespace Intellibiz.Rules

open FixedPoint Numeral Rounding

/-! ## The tax -/

/-- The number of decimals of `x` that fit. -/
def decimalsKept (x : ℚ) : ℕ := kept halfEven (2 ^ 96) 28 x

/-- With `p` decimals, `x` is taken for the half of a hundredth that it is not, and which is rounded
to the other side. -/
def HalfCent (p : ℕ) (x : ℚ) : Prop :=
  ∃ n : ℤ, 3 ≤ p ∧ halfEven (x * 10 ^ p) = (10 * n + 5) * 10 ^ (p - 3) ∧ x * 100 ≠ n + 1 / 2 ∧
    (n + 1 / 2 < x * 100 ↔ Even n)

/-- `x` is the same to `d` decimals as to two, or to the decimals that fit if these are fewer, and
is not taken for the half of a hundredth. -/
def RoundsTo (d : ℕ) (x : ℚ) : Prop :=
  halfEven (x * 10 ^ min (decimalsKept x) 2) * 10 ^ d =
      10 ^ min (decimalsKept x) 2 * halfEven (x * 10 ^ d) ∧
    ¬ HalfCent (decimalsKept x) x

section Tax

variable {x : ℚ} {d : ℕ}

theorem cents_eq (x : ℚ) :
    cents x = halfEven ((halfEven (x * 10 ^ decimalsKept x) : ℚ) / 10 ^ decimalsKept x * 100) := rfl

/-- Few decimals are not rounded again. -/
theorem cents_of_le (h : decimalsKept x ≤ 2) :
    cents x = halfEven (x * 10 ^ decimalsKept x) * 10 ^ (2 - decimalsKept x) := by
  obtain ⟨k, hk⟩ := Nat.exists_eq_add_of_le h
  have hpow : (100 : ℚ) = 10 ^ decimalsKept x * 10 ^ k := by
    rw [← pow_add, ← hk]
    norm_num
  have hscaled : (halfEven (x * 10 ^ decimalsKept x) : ℚ) / 10 ^ decimalsKept x * 100 =
      ((halfEven (x * 10 ^ decimalsKept x) * 10 ^ k : ℤ) : ℚ) := by
    rw [hpow, Int.cast_mul, Int.cast_pow]
    field_simp
    norm_num
  have hsub : 2 - decimalsKept x = k := by omega
  rw [cents_eq, hscaled, halfEven_intCast, hsub]

/-- More decimals are rounded twice. -/
theorem cents_eq_iff (h : 3 ≤ decimalsKept x) :
    cents x = halfEven (x * 100) ↔ ¬ HalfCent (decimalsKept x) x := by
  obtain ⟨k, hk⟩ := Nat.exists_eq_add_of_le h
  have hw : 0 < 5 * 10 ^ k := by positivity
  have hpow : (10 : ℚ) ^ decimalsKept x = 1000 * 10 ^ k := by
    rw [hk, pow_add]
    norm_num
  have hunits : (2 : ℚ) * ((5 * 10 ^ k : ℕ) : ℚ) * (x * 100) = x * 10 ^ decimalsKept x := by
    rw [hpow]
    push_cast
    ring
  have hcents : (halfEven (x * 10 ^ decimalsKept x) : ℚ) / 10 ^ decimalsKept x * 100 =
      (halfEven (x * 10 ^ decimalsKept x) : ℚ) / (2 * ((5 * 10 ^ k : ℕ) : ℚ)) := by
    rw [hpow]
    push_cast
    field_simp
    ring
  have htwice := halfEven_twice_iff hw (y := x * 100)
  rw [hunits, ← hcents] at htwice
  rw [cents_eq, htwice]
  unfold HalfCent
  simp only [not_exists, not_and, not_iff]
  refine forall_congr' fun n => ?_
  have hties : (2 * ((5 * 10 ^ k : ℕ) : ℤ) * n + ((5 * 10 ^ k : ℕ) : ℤ)) =
      (10 * n + 5) * 10 ^ (decimalsKept x - 3) := by
    have hsub : decimalsKept x - 3 = k := by omega
    rw [hsub]
    push_cast
    ring
  rw [hties]
  constructor
  · intro hall _ htie hne
    have hside := hall htie hne
    tauto
  · intro hall htie hne
    have hside := hall h htie hne
    tauto

theorem not_halfCent (h : decimalsKept x ≤ 2) : ¬ HalfCent (decimalsKept x) x := by
  rintro ⟨n, hp, -⟩
  omega

/-- A value that is taken for half a hundredth is not far from it. -/
theorem HalfCent.close (h : HalfCent (decimalsKept x) x) :
    ∃ n : ℤ, x * 100 ≠ n + 1 / 2 ∧ halfEven (x * 1000) = 10 * n + 5 ∧
      |x * 100 - (n + 1 / 2)| ≤ 1 / 20 := by
  obtain ⟨n, hp, htie, hne, -⟩ := h
  obtain ⟨k, hk⟩ := Nat.exists_eq_add_of_le hp
  have hsub : decimalsKept x - 3 = k := by omega
  rw [hsub, hk] at htie
  have hscaled : x * 10 ^ (3 + k) = ((10 ^ k : ℕ) : ℚ) * (x * 1000) := by
    rw [pow_add]
    push_cast
    ring
  rw [hscaled] at htie
  have hthousandths : halfEven (x * 1000) = 10 * n + 5 := by
    refine halfEven_of_multiple (g := 10 ^ k) (by positivity) ?_
    rw [htie]
    push_cast
    ring
  refine ⟨n, hne, hthousandths, ?_⟩
  have herr := abs_sub_halfEven_le (x * 1000)
  rw [hthousandths] at herr
  push_cast at herr
  rw [abs_le] at herr ⊢
  constructor <;> linarith

/-- **When the tax of the rule is the exact tax, rounded to `d` decimals**; without decimals, for a
tax in whole hundredths. -/
theorem cents_iff (hd : (d = 0 ∧ ∃ k : ℤ, x * 100 = k) ∨ d = 2 ∨ d = 3) :
    cents x * 10 ^ d = 100 * halfEven (x * 10 ^ d) ↔ RoundsTo d x := by
  unfold RoundsTo
  rcases le_or_gt (decimalsKept x) 2 with hp | hp
  · -- the tax has the decimals that fit
    obtain ⟨k, hk⟩ := Nat.exists_eq_add_of_le hp
    have hsub : 2 - decimalsKept x = k := by omega
    have hpow : (100 : ℤ) = 10 ^ decimalsKept x * 10 ^ k := by
      rw [← pow_add, ← hk]
      norm_num
    have hpos : (10 : ℤ) ^ k ≠ 0 := by positivity
    rw [cents_of_le hp, hsub, min_eq_left hp, hpow, and_iff_left (not_halfCent hp)]
    constructor
    · intro h
      apply mul_right_cancel₀ hpos
      linear_combination h
    · intro h
      linear_combination (10 : ℤ) ^ k * h
  · rw [min_eq_right (by omega : 2 ≤ decimalsKept x)]
    have hhundred : x * 10 ^ 2 = x * 100 := by norm_num
    have htwo : (10 : ℤ) ^ 2 = 100 := by norm_num
    rw [hhundred, htwo]
    by_cases hhalf : HalfCent (decimalsKept x) x
    · -- half a hundredth is no tax of `d` decimals, unless the tax has two
      refine iff_of_false ?_ (fun hboth => hboth.2 hhalf)
      intro heq
      obtain ⟨n, hne, hthousandths, hclose⟩ := hhalf.close
      rcases hd with ⟨rfl, k, hk⟩ | rfl | rfl
      · rw [hk] at hclose
        have hlow := (abs_le.1 hclose).1
        have hhigh := (abs_le.1 hclose).2
        have hint : (2 * (k - n) - 1 : ℤ) = 0 := by
          have hlt : ((2 * (k - n) - 1 : ℤ) : ℚ) < ((1 : ℤ) : ℚ) := by
            push_cast
            linarith
          have hgt : ((-1 : ℤ) : ℚ) < ((2 * (k - n) - 1 : ℤ) : ℚ) := by
            push_cast
            linarith
          have hlt' := Int.cast_lt.1 hlt
          have hgt' := Int.cast_lt.1 hgt
          omega
        omega
      · rw [hhundred, htwo, mul_comm] at heq
        have hsame := mul_left_cancel₀ (by norm_num : (100 : ℤ) ≠ 0) heq
        exact (cents_eq_iff hp).1 hsame hhalf
      · have hthousand : x * 10 ^ 3 = x * 1000 := by norm_num
        rw [hthousand, hthousandths] at heq
        norm_num at heq
        omega
    · rw [and_iff_left hhalf, (cents_eq_iff hp).2 hhalf]

/-- An exact tax that fits is rounded once. -/
theorem roundsTo_of_fits (h : Fits (2 ^ 96) 28 x) : RoundsTo 2 x := by
  have hkept : keptTax x = x := by
    have hheld := hold_eq halfEven_intCast h
    rw [hold_eq_kept] at hheld
    split at hheld
    · exact Option.some_inj.1 hheld
    · cases hheld
  rw [← cents_iff (.inr (.inl rfl)), cents, hkept]
  norm_num [mul_comm]

end Tax

/-! ## The accounts -/

/-- The exact tax of an amount, rounded half to even to `places` decimals. -/
def taxDue (places : ℕ) (amount : ℚ) (bp : UInt32) : ℚ :=
  halfEven (exactTax amount bp * 10 ^ places) / 10 ^ places

/-- The result accounts for an amount, with the tax that is due. -/
structure RuleResult.Accounts (result : RuleResult) (ctx : RuleContext) (amount : ℚ) : Prop where
  passed : result.passed = true ↔ ctx.tenantId ≠ "" ∧ ctx.userRole ∈ ALLOWED_ROLES
  tax : value? result.taxAmount = some (taxDue 2 amount ctx.rate)
  adjusted : ∃ tax discount, value? result.taxAmount = some tax ∧
    value? result.discountAmount = some discount ∧
    value? result.adjustedAmount = some (amount + tax - discount)

/-- An amount that is no decimal is an error; any other is accounted for. -/
def Conserved (R : RustDecimal) (ctx : RuleContext) : Prop :=
  match R.fromStr ctx.amount with
  | none => ∃ e, evaluate R ctx = some (.error e)
  | some d => ∃ result, evaluate R ctx = some (.ok result) ∧ result.Accounts ctx (R.value d)

section Accounts

variable {R : RustDecimal} {ctx : RuleContext} {d : R.Decimal}

theorem passes_iff : ctx.passes = true ↔ ctx.tenantId ≠ "" ∧ ctx.userRole ∈ ALLOWED_ROLES := by
  simp [RuleContext.passes]

theorem rate_eq_zero_iff : ctx.rate = 0 ↔
    vatBasisPoints ctx.country ctx.vatId = none ∨
      vatBasisPoints ctx.country ctx.vatId = some 0 := by
  unfold RuleContext.rate
  cases vatBasisPoints ctx.country ctx.vatId <;> simp

theorem vatBasisPoints_eq_rate (h : ctx.rate ≠ 0) :
    vatBasisPoints ctx.country ctx.vatId = some ctx.rate := by
  unfold RuleContext.rate at h ⊢
  cases hbp : vatBasisPoints ctx.country ctx.vatId with
  | none => simp [hbp] at h
  | some bp => rfl

@[simp] theorem exactTax_zero (amount : ℚ) : exactTax amount 0 = 0 := by
  simp [exactTax]

@[simp] theorem cents_zero : cents 0 = 0 := by
  simp [cents, keptTax, halfEven_zero]

@[simp] theorem taxDue_zero (places : ℕ) (amount : ℚ) : taxDue places amount 0 = 0 := by
  simp [taxDue, halfEven_zero]

theorem value?_zero : value? (R.toText (zero R)) = some 0 := by
  rw [R.toText_eq, value_zero]

/-- The rounded product is the tax that is due where it is the exact one, rounded. -/
theorem cents_eq_taxDue_iff {places : ℕ} {q : ℚ} {bp : UInt32}
    (hd : (places = 0 ∧ ∃ k : ℤ, exactTax q bp * 100 = k) ∨ places = 2 ∨ places = 3) :
    (cents (exactTax q bp) : ℚ) / 100 = taxDue places q bp ↔ RoundsTo places (exactTax q bp) := by
  rw [← cents_iff hd, taxDue, div_eq_div_iff (by norm_num) (by positivity), mul_comm _ (100 : ℚ)]
  norm_cast

/-- **What the pipeline returns**: the rounded tax, and its sum with the amount, unless this
overflows. -/
theorem evaluate_cases (hd : R.fromStr ctx.amount = some d) :
    ∃ tax, R.value tax = cents (exactTax (R.value d) ctx.rate) / 100 ∧
      ((hold halfEven (2 ^ 96) 28 (R.value d + R.value tax) = none ∧ evaluate R ctx = none) ∨
        ∃ amount applied,
          hold halfEven (2 ^ 96) 28 (R.value d + R.value tax) = some (R.value amount) ∧
          evaluate R ctx = some (.ok
            ⟨ctx.passes, applied, R.toText amount, R.toText tax, R.toText (zero R)⟩)) := by
  by_cases hrate : ctx.rate = 0
  · obtain ⟨applied, hresult⟩ := evaluate_untaxed hd (rate_eq_zero_iff.1 hrate)
    refine ⟨zero R, ?_, .inr ⟨d, applied, ?_, hresult⟩⟩
    · rw [hrate, exactTax_zero, cents_zero, value_zero, Int.cast_zero, zero_div]
    · rw [value_zero, add_zero]
      exact hold_eq halfEven_intCast (R.fits d)
  · obtain ⟨rounded, hrounded, hcase⟩ := evaluate_taxed hd (vatBasisPoints_eq_rate hrate) hrate
    have hsum := R.add_eq d rounded
    rcases hcase with ⟨hadd, hpanic⟩ | ⟨amount, tax, applied, hadd, htax, hresult⟩
    · rw [hadd, Option.map_none] at hsum
      exact ⟨rounded, hrounded, .inl ⟨hsum.symm, hpanic⟩⟩
    · rw [hadd, Option.map_some, ← htax] at hsum
      exact ⟨tax, htax.trans hrounded, .inr ⟨amount, applied, hsum.symm, hresult⟩⟩

/-- An amount is accounted for if the tax is the exact one, rounded, and its sum with the amount
fits. -/
theorem accounts_iff (hd : R.fromStr ctx.amount = some d) :
    (∃ result, evaluate R ctx = some (.ok result) ∧ result.Accounts ctx (R.value d)) ↔
      (cents (exactTax (R.value d) ctx.rate) : ℚ) / 100 = taxDue 2 (R.value d) ctx.rate ∧
        Fits (2 ^ 96) 28 (R.value d + taxDue 2 (R.value d) ctx.rate) := by
  obtain ⟨tax, htax, hcase⟩ := evaluate_cases hd
  rw [← htax]
  constructor
  · rintro ⟨result, hresult, haccounts⟩
    rcases hcase with ⟨-, hpanic⟩ | ⟨amount, applied, -, hok⟩
    · rw [hpanic] at hresult
      cases hresult
    · rw [hok] at hresult
      cases hresult
      have hdue := haccounts.tax
      rw [R.toText_eq] at hdue
      refine ⟨Option.some_inj.1 hdue, ?_⟩
      obtain ⟨t, discount, htext, hdiscount, hadjusted⟩ := haccounts.adjusted
      rw [haccounts.tax] at htext
      rw [value?_zero] at hdiscount
      rw [R.toText_eq] at hadjusted
      cases htext
      cases hdiscount
      rw [sub_zero] at hadjusted
      rw [← Option.some_inj.1 hadjusted]
      exact R.fits amount
  · rintro ⟨hdue, hfits⟩
    rw [hdue, hold_eq halfEven_intCast hfits] at hcase
    rcases hcase with ⟨hoverflow, -⟩ | ⟨amount, applied, hsum, hok⟩
    · cases hoverflow
    · have htext : value? (R.toText tax) = some (taxDue 2 (R.value d) ctx.rate) := by
        rw [R.toText_eq, hdue]
      refine ⟨_, hok, passes_iff, htext, _, 0, htext, value?_zero, ?_⟩
      rw [R.toText_eq, ← Option.some_inj.1 hsum, sub_zero]

/-- A purchase in Germany, by the owner of a tenant. -/
def purchase (amount currency : String) (vatId : Option String) : RuleContext :=
  ⟨"t-1", "owner", amount, currency, "DE", none, vatId⟩

end Accounts

end Intellibiz.Rules
