import Intellibiz.Rules.Accounts

/-!
# The rule engine and its fallback

Model of `rule_evaluate` in `crates/bindings/src/lib.rs` and of the fallback in
`packages/core/src/native/bridge.ts`.  The JSON of a result is the result.

* `Native.ruleEvaluate`, `Fallback.ruleEvaluate` — the functions of the two.
* `RuleResult.Refines` — the verdicts and amounts of two results are the same.

Principal results: `cents_eq_zero_iff` (what tax is rounded to nothing) and `fallback_refines_iff`.
-/

namespace Intellibiz.Rules

open FixedPoint Numeral Rounding

/-! ## The two implementations -/

/-- `rule_evaluate`; an error, or the panic of the task, rejects with a reason. -/
def Native.ruleEvaluate (R : RustDecimal) (panicked tenantId userRole amount currency country :
    String) (region vatId : Option String) : Except String RuleResult :=
  match evaluate R { tenantId, userRole, amount, currency, country, region, vatId } with
  | some (.ok result) => .ok result
  | some (.error e) => .error e.message
  | none => .error panicked

/-- `ruleEvaluate` of the fallback; it has no parameters for region and VAT id. -/
def Fallback.ruleEvaluate (_tenantId _userRole amount _currency _country : String) :
    RuleResult where
  passed := true
  appliedRules := []
  adjustedAmount := amount
  taxAmount := "0"
  discountAmount := "0"

/-- Two texts of one number. -/
def SameNumber (text text' : String) : Prop := ∃ q, value? text = some q ∧ value? text' = some q

/-- The verdict, the adjusted amount and the tax of one result are those of another. -/
structure RuleResult.Refines (result other : RuleResult) : Prop where
  passed : result.passed = other.passed
  adjusted : SameNumber result.adjustedAmount other.adjustedAmount
  tax : SameNumber result.taxAmount other.taxAmount

/-! ## A tax of nothing -/

section Tax

variable {x : ℚ}

/-- A tax of less than eight has 28 decimals. -/
theorem decimalsKept_of_lt (h : |halfEven (x * 10 ^ 28)| < ((2 ^ 96 : ℕ) : ℤ)) :
    decimalsKept x = 28 := by
  unfold decimalsKept kept
  rw [if_pos h]

/-- **What tax is rounded to nothing**: up to half a hundredth, and half a unit of the last decimal
that is kept. -/
theorem cents_eq_zero_iff : cents x = 0 ↔ |x| ≤ 1 / 200 + 1 / (2 * 10 ^ 28) := by
  have hzero : cents x = 0 ↔ |keptTax x * 100| ≤ 1 / 2 := by
    have hle := abs_halfEven_le_iff (q := keptTax x * 100) (show Even (0 : ℤ) from Even.zero)
    rw [Int.cast_zero, zero_add] at hle
    rw [← hle, abs_nonpos_iff, cents]
  rw [hzero]
  by_cases h : |halfEven (x * 10 ^ 28)| < ((2 ^ 96 : ℕ) : ℤ)
  · -- the units of the last decimal are an integer, half a hundredth is an even number of them
    have hle := abs_halfEven_le_iff (q := x * 10 ^ 28)
      (show Even (5 * 10 ^ 25 : ℤ) by decide)
    have hkept : keptTax x * 100 = (halfEven (x * 10 ^ 28) : ℚ) / 10 ^ 26 := by
      have hdecimals := decimalsKept_of_lt h
      unfold decimalsKept at hdecimals
      rw [keptTax, hdecimals]
      ring
    have hunits : |(halfEven (x * 10 ^ 28) : ℚ)| ≤ 5 * 10 ^ 25 ↔
        |halfEven (x * 10 ^ 28)| ≤ (5 * 10 ^ 25 : ℤ) := by
      rw [← Int.cast_abs]
      exact_mod_cast Iff.rfl
    rw [hkept, abs_div, abs_of_pos (by positivity : (0 : ℚ) < 10 ^ 26),
      div_le_iff₀ (by positivity)]
    have hhalf : (1 / 2 * 10 ^ 26 : ℚ) = 5 * 10 ^ 25 := by norm_num
    rw [hhalf, hunits, hle, abs_mul, abs_of_pos (by positivity : (0 : ℚ) < 10 ^ 28),
      ← le_div_iff₀ (by positivity)]
    norm_num
  · -- a tax of eight or more
    have hlarge : ((2 ^ 96 : ℕ) : ℚ) ≤ |(halfEven (x * 10 ^ 28) : ℚ)| := by
      rw [← Int.cast_abs]
      exact_mod_cast not_lt.1 h
    have hround := abs_round_le abs_sub_halfEven_le (x * 10 ^ 28)
    rw [abs_mul, abs_of_pos (by positivity : (0 : ℚ) < 10 ^ 28)] at hround
    have hseven : 7 ≤ |x| := by
      norm_num at hlarge hround
      linarith
    refine iff_of_false ?_ ?_
    · intro hsmall
      have hkept : |keptTax x - x| ≤ 1 / 2 := abs_decimals_sub_le abs_sub_halfEven_le _ x
      have hback := abs_sub_abs_le_abs_sub x (keptTax x)
      rw [abs_sub_comm x] at hback
      rw [abs_mul] at hsmall
      norm_num at hsmall
      linarith
    · intro hsmall
      norm_num at hsmall
      linarith

end Tax

/-! ## Refinement -/

section Refinement

variable {R : RustDecimal} {ctx : RuleContext} {d : R.Decimal} {result : RuleResult}

/-- What a result says, in terms of the amount. -/
theorem evaluate_spec (hd : R.fromStr ctx.amount = some d)
    (h : evaluate R ctx = some (.ok result)) :
    ∃ amount tax, result.passed = ctx.passes ∧ result.adjustedAmount = R.toText amount ∧
      result.taxAmount = R.toText tax ∧
      R.value tax = cents (exactTax (R.value d) ctx.rate) / 100 ∧
      hold halfEven (2 ^ 96) 28 (R.value d + R.value tax) = some (R.value amount) := by
  obtain ⟨tax, htax, ⟨-, hpanic⟩ | ⟨amount, applied, hsum, hok⟩⟩ := evaluate_cases hd
  · rw [hpanic] at h
    cases h
  · rw [hok] at h
    cases h
    exact ⟨amount, tax, rfl, rfl, rfl, htax, hsum⟩

theorem evaluate_of_native {panicked tenantId userRole amount currency country : String}
    {region vatId : Option String}
    (h : Native.ruleEvaluate R panicked tenantId userRole amount currency country region vatId =
      .ok result) :
    evaluate R ⟨tenantId, userRole, amount, currency, country, region, vatId⟩ =
      some (.ok result) := by
  unfold Native.ruleEvaluate at h
  split at h
  · rename_i hresult
    cases h
    exact hresult
  · cases h
  · cases h

/-- An amount that has a result is a decimal, the one of the string where this fits. -/
theorem fromStr_of_evaluate {q : ℚ} (hq : value? ctx.amount = some q)
    (h : evaluate R ctx = some (.ok result)) :
    ∃ d, R.fromStr ctx.amount = some d ∧ (Fits (2 ^ 96) 28 q → R.value d = q) := by
  cases hd : R.fromStr ctx.amount with
  | none =>
    rw [evaluate_invalid hd] at h
    cases h
  | some d =>
    refine ⟨d, rfl, fun hfits => ?_⟩
    obtain ⟨d', hd', hvalue⟩ := R.exists_fromStr hq hfits
    rw [hd] at hd'
    cases hd'
    exact hvalue

/-- **When the fallback agrees with the engine**: tenant and role pass, the amount is one of 96
bits, and its exact tax is rounded to nothing. -/
theorem fallback_refines_iff (R : RustDecimal)
    (panicked tenantId userRole amount currency country : String) (region vatId : Option String)
    (q : ℚ) (result : RuleResult) (hq : value? amount = some q)
    (hnative : Native.ruleEvaluate R panicked tenantId userRole amount currency country region
      vatId = .ok result) :
    result.Refines (Fallback.ruleEvaluate tenantId userRole amount currency country) ↔
      (tenantId ≠ "" ∧ userRole ∈ ALLOWED_ROLES) ∧ Fits (2 ^ 96) 28 q ∧
        |exactTax q ((vatBasisPoints country vatId).getD 0)| ≤ 1 / 200 + 1 / (2 * 10 ^ 28) := by
  have hresult := evaluate_of_native hnative
  obtain ⟨d, hd, hvalue⟩ := fromStr_of_evaluate hq hresult
  obtain ⟨adjusted, tax, hpassed, hadjusted, htax, htaxvalue, hsum⟩ := evaluate_spec hd hresult
  have hzero : value? "0" = some 0 := by decide
  have hrate : RuleContext.rate ⟨tenantId, userRole, amount, currency, country, region, vatId⟩ =
      (vatBasisPoints country vatId).getD 0 := rfl
  rw [hrate] at htaxvalue
  rw [← cents_eq_zero_iff]
  constructor
  · rintro ⟨hverdict, ⟨a, ha, ha'⟩, ⟨t, ht, ht'⟩⟩
    have hfits : Fits (2 ^ 96) 28 q := by
      rw [hadjusted, R.toText_eq] at ha
      have hsame : some a = some q := ha'.symm.trans hq
      rw [← Option.some_inj.1 hsame, ← Option.some_inj.1 ha]
      exact R.fits adjusted
    refine ⟨passes_iff.1 (hpassed.symm.trans hverdict), hfits, ?_⟩
    rw [htax, R.toText_eq] at ht
    have hnothing : some t = some 0 := ht'.symm.trans hzero
    rw [Option.some_inj.1 ht, Option.some_inj.1 hnothing, hvalue hfits] at htaxvalue
    have hcast : (cents (exactTax q ((vatBasisPoints country vatId).getD 0)) : ℚ) = 0 := by
      linarith
    exact_mod_cast hcast
  · rintro ⟨hpasses, hfits, hnothing⟩
    rw [hvalue hfits, hnothing, Int.cast_zero, zero_div] at htaxvalue
    rw [htaxvalue, add_zero, hold_eq halfEven_intCast (R.fits d), hvalue hfits] at hsum
    refine ⟨hpassed.trans (passes_iff.2 hpasses), ⟨q, ?_, hq⟩, ⟨0, ?_, hzero⟩⟩
    · rw [hadjusted, R.toText_eq, ← Option.some_inj.1 hsum]
    · rw [htax, R.toText_eq, htaxvalue]

/-- Two cents, with a tax of less than half a cent. -/
theorem two_cents_refined :
    (⟨true, ["tenant-isolation:PASSED", "permission-scope:PASSED:owner", "vat:DE:19%",
        "fraud-signal:PASSED"], "0.02", "0.00", "0"⟩ : RuleResult).Refines
      (Fallback.ruleEvaluate "t-1" "owner" "0.02" "EUR" "DE") := by
  have hvalue : value? "0.02" = some (2 / 100) := rfl
  have hnative : Native.ruleEvaluate decimals "" "t-1" "owner" "0.02" "EUR" "DE" none none =
      .ok ⟨true, ["tenant-isolation:PASSED", "permission-scope:PASSED:owner", "vat:DE:19%",
        "fraud-signal:PASSED"], "0.02", "0.00", "0"⟩ := by decide +kernel
  have hrate : ((vatBasisPoints "DE" none).getD 0).toNat = 1900 := by decide
  refine (fallback_refines_iff decimals "" "t-1" "owner" "0.02" "EUR" "DE" none none _ _ hvalue
    hnative).2 ⟨by decide, ⟨2, 2, by omega, by norm_num, by norm_num⟩, ?_⟩
  rw [exactTax, hrate]
  norm_num [abs_of_pos]

/-- The fallback passes a viewer without a tenant, and has no tax. -/
theorem fallback_passes_all :
    ∃ result, Native.ruleEvaluate decimals "" "" "viewer" "100.00" "EUR" "DE" none none =
        .ok result ∧
      ¬ result.Refines (Fallback.ruleEvaluate "" "viewer" "100.00" "EUR" "DE") ∧
      result.passed = false ∧ result.adjustedAmount = "119.00" ∧ result.taxAmount = "19.00" := by
  refine ⟨⟨false, ["tenant-isolation:FAILED:no-tenant-id",
    "permission-scope:FAILED:unknown-role:viewer", "vat:DE:19%", "fraud-signal:PASSED"],
    "119.00", "19.00", "0"⟩, by decide +kernel, ?_, rfl, rfl, rfl⟩
  intro h
  have hverdict := h.passed
  cases hverdict

end Refinement

end Intellibiz.Rules
